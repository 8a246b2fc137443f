/-!
# YAML characters

Which characters a document may hold, which of them are blanks and line breaks,
and what a document mark is. Every line break is read as a line feed, save for the
line and paragraph separators, which stand for themselves.
-/

namespace DomainLang.Yaml

/-- A blank within a line. -/
def isBlank (character : Char) : Bool :=
  character = ' ' || character = '\t'

/-- A line break of a text whose breaks are normalized. -/
def isBreak (character : Char) : Bool :=
  character = '\n' || character = '\u2028' || character = '\u2029'

/-- The mark that may precede the first token of a line. -/
def byteOrderMark : Char := '\ufeff'

/-- Whether a character may stand in a document: no control character but tabs and
line breaks, and no character that Unicode reserves. -/
def isAllowed (character : Char) : Bool :=
  character = '\t' || character = '\n' || character = '\r' || character = '\u0085' ||
    (' ' ≤ character && character ≤ '~') ||
    ('\u00a0' ≤ character && character ≠ '\ufffe' && character ≠ '\uffff')

/-- A text in which a carriage return with or without a line feed, a line feed and
a next-line character are one line feed each. -/
def normalizeBreaks : List Char → List Char
  | '\r' :: '\n' :: rest => '\n' :: normalizeBreaks rest
  | '\r' :: rest => '\n' :: normalizeBreaks rest
  | '\u0085' :: rest => '\n' :: normalizeBreaks rest
  | character :: rest => character :: normalizeBreaks rest
  | [] => []

/-- Whether a word ends here: nothing, a blank or a line break follows. -/
def endsWord : List Char → Bool
  | [] => true
  | character :: _ => isBlank character || isBreak character

/-- Whether a line starts here with a document mark. -/
def isDocumentMark (column : Nat) : List Char → Bool
  | '-' :: '-' :: '-' :: rest => column = 0 && endsWord rest
  | '.' :: '.' :: '.' :: rest => column = 0 && endsWord rest
  | _ => false

/-- The characters that structure collections between brackets. -/
def isFlowMark (character : Char) : Bool :=
  character ∈ [',', '[', ']', '\x7b', '\x7d']

/-- A place in a text: its line and column, both from zero, and the number of bytes
before it on its line. -/
structure Place where
  line : Nat := 0
  column : Nat := 0
  offset : Nat := 0
  deriving DecidableEq, Repr

/-- The place behind a character. -/
def Place.behind (place : Place) (character : Char) : Place :=
  if isBreak character then ⟨place.line + 1, 0, 0⟩
  else ⟨place.line, place.column + 1, place.offset + character.utf8Size⟩

/-- A place and what is left of the text there. -/
structure Cursor where
  place : Place := {}
  rest : List Char
  deriving Repr

/-- The cursor `count` characters further on. -/
def Cursor.skip (cursor : Cursor) (count : Nat) : Cursor :=
  ⟨(cursor.rest.take count).foldl Place.behind cursor.place, cursor.rest.drop count⟩

end DomainLang.Yaml
