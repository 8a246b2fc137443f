import DomainLang.Yaml.Scalar

/-!
# YAML tokens

The tokens of a document make its indentation explicit: a block collection has a
start and an end, and every key is announced. That a scalar or collection was a key
shows only at the colon after it, so each level of nesting remembers one candidate,
and the announcement is inserted before it.

A candidate is a key of one line and of at most 1024 bytes. It is required when
it stands where the next key of a block mapping must stand.

Directives, anchors, aliases, tags and block scalars are refused.
-/

namespace DomainLang.Yaml

/-- A token of a document. -/
inductive Token where
  | documentStart
  | documentEnd
  | blockSequenceStart
  | blockMappingStart
  | blockEnd
  | flowSequenceStart
  | flowSequenceEnd
  | flowMappingStart
  | flowMappingEnd
  | dash
  | comma
  | key
  | value
  | scalar (text : String) (isPlain : Bool)
  deriving DecidableEq, Repr

/-- What may turn out to be a key. -/
structure KeyCandidate where
  /-- How many tokens precede it. -/
  position : Nat
  place : Place
  isRequired : Bool
  deriving Repr

/-- The most bytes from the start of a key to its colon. -/
def maxKeyLength : Nat := 1024

/-- Whether a colon at `place` comes too late for the candidate. -/
def KeyCandidate.isStale (candidate : KeyCandidate) (place : Place) : Bool :=
  candidate.place.line < place.line || candidate.place.offset + maxKeyLength < place.offset

/-- What has been read of a text. -/
structure Scan where
  cursor : Cursor
  /-- The tokens so far, the last one first. -/
  reversed : List Token := []
  /-- The columns of the open block collections, the innermost first. -/
  indents : List Nat := []
  /-- Whether a key may start at the next token. -/
  keyAllowed : Bool := true
  /-- The candidate of the innermost collection. -/
  candidate : Option KeyCandidate := none
  /-- The candidates around each open bracket, the innermost first. -/
  outer : List (Option KeyCandidate) := []

/-- The next token after blanks, comments and line breaks, and whether a key may start
there. A line break allows one, except between brackets, and where one may start no tab
is skipped. -/
def nextToken (inFlow : Bool) :
    (keyAllowed inComment : Bool) → Place → List Char → Bool × Cursor
  | keyAllowed, _, place, [] => (keyAllowed, ⟨place, []⟩)
  | keyAllowed, inComment, place, character :: rest =>
    let behind := place.behind character
    if isBreak character then nextToken inFlow (keyAllowed || !inFlow) false behind rest
    else if inComment || character = '#' then nextToken inFlow keyAllowed true behind rest
    else if character = ' ' || (character = '\t' && (inFlow || !keyAllowed)) ||
        (character = byteOrderMark && place.column = 0) then
      nextToken inFlow keyAllowed false behind rest
    else (keyAllowed, ⟨place, character :: rest⟩)

namespace Scan

/-- The column of the next token. -/
def column (scan : Scan) : Nat :=
  scan.cursor.place.column

/-- Whether a bracket is open. -/
def inFlow (scan : Scan) : Bool :=
  !scan.outer.isEmpty

/-- The scan after a token of `count` characters. -/
def take (scan : Scan) (token : Token) (count : Nat) : Scan :=
  { scan with cursor := scan.cursor.skip count, reversed := token :: scan.reversed }

/-- The scan at the next token. -/
def seek (scan : Scan) : Scan :=
  let (keyAllowed, cursor) :=
    nextToken scan.inFlow scan.keyAllowed false scan.cursor.place scan.cursor.rest
  { scan with keyAllowed, cursor }

/-- Forget the candidate, which must not be a required key. -/
def dropCandidate? (scan : Scan) : Option Scan :=
  if scan.candidate.any (·.isRequired) then none else some { scan with candidate := none }

/-- Forget the candidates that a colon would come too late for; none of them may be a
required key. -/
def dropStale? (scan : Scan) : Option Scan := do
  let fresh? : Option KeyCandidate → Option (Option KeyCandidate)
    | none => some none
    | some candidate =>
      if !candidate.isStale scan.cursor.place then some (some candidate)
      else if candidate.isRequired then none
      else some none
  return { scan with
    candidate := ← fresh? scan.candidate
    outer := ← scan.outer.mapM fresh? }

/-- Make the token that starts here the candidate, if a key may start here. -/
def saveCandidate? (scan : Scan) : Option Scan :=
  if scan.keyAllowed then do
    let scan ← scan.dropCandidate?
    let isRequired := !scan.inFlow && scan.indents.head? = some scan.column
    let candidate : KeyCandidate := ⟨scan.reversed.length, scan.cursor.place, isRequired⟩
    return { scan with candidate := some candidate }
  else some scan

/-- Whether a block collection at `column` would be a new one. -/
def opensBlock (scan : Scan) (column : Nat) : Bool :=
  !scan.inFlow && scan.indents.head?.all (· < column)

/-- Open a block collection here, unless one is open at this column. -/
def openBlock (scan : Scan) (start : Token) : Scan :=
  if scan.opensBlock scan.column then
    { scan with
      indents := scan.column :: scan.indents
      reversed := start :: scan.reversed }
  else scan

/-- Close the block collections whose columns satisfy `isClosed`, from the innermost
on. Between brackets none is closed. -/
def closeBlocks (scan : Scan) (isClosed : Nat → Bool) : Scan :=
  if scan.inFlow then scan
  else
    { scan with
      indents := scan.indents.dropWhile isClosed
      reversed := (scan.indents.takeWhile isClosed).map (fun _ => Token.blockEnd) ++ scan.reversed }

/-- The mark between documents. -/
def documentMark? (scan : Scan) (token : Token) : Option Scan := do
  let scan ← (scan.closeBlocks fun _ => true).dropCandidate?
  return { scan with keyAllowed := false }.take token 3

/-- An opening bracket. -/
def openBracket? (scan : Scan) (token : Token) : Option Scan := do
  let scan ← scan.saveCandidate?
  return { scan with
    keyAllowed := true
    candidate := none
    outer := scan.candidate :: scan.outer }.take token 1

/-- A closing bracket. -/
def closeBracket? (scan : Scan) (token : Token) : Option Scan := do
  let scan ← scan.dropCandidate?
  return { scan with
    keyAllowed := false
    candidate := scan.outer.head?.join
    outer := scan.outer.tail }.take token 1

/-- A comma. -/
def comma? (scan : Scan) : Option Scan := do
  let scan ← scan.dropCandidate?
  return { scan with keyAllowed := true }.take .comma 1

/-- A dash before an item of a block sequence. -/
def dash? (scan : Scan) : Option Scan := do
  guard (scan.inFlow || scan.keyAllowed)
  let scan ← (scan.openBlock .blockSequenceStart).dropCandidate?
  return { scan with keyAllowed := true }.take .dash 1

/-- A question mark before a key. -/
def explicitKey? (scan : Scan) : Option Scan := do
  guard (scan.inFlow || scan.keyAllowed)
  let scan ← (scan.openBlock .blockMappingStart).dropCandidate?
  return { scan with keyAllowed := !scan.inFlow }.take .key 1

/-- Announce the candidate as a key, and its block mapping if it is the first key. -/
def announce (scan : Scan) (candidate : KeyCandidate) : Scan :=
  let since := scan.reversed.length - candidate.position
  let isFirst := scan.opensBlock candidate.place.column
  { scan with
    indents := if isFirst then candidate.place.column :: scan.indents else scan.indents
    reversed := scan.reversed.take since ++ Token.key ::
      ((if isFirst then [Token.blockMappingStart] else []) ++ scan.reversed.drop since)
    candidate := none
    keyAllowed := false }

/-- A colon before a value. -/
def value? (scan : Scan) : Option Scan :=
  match scan.candidate with
  | some candidate => some ((scan.announce candidate).take .value 1)
  | none => do
    guard (scan.inFlow || scan.keyAllowed)
    let scan := scan.openBlock .blockMappingStart
    return { scan with keyAllowed := !scan.inFlow }.take .value 1

/-- A scalar in quotes. -/
def quotedScalar? (scan : Scan) (quote : Quote) : Option Scan := do
  let scan ← scan.saveCandidate?
  let (text, cursor) ← quoted? quote scan.cursor.rest.length .nothing [] (scan.cursor.skip 1)
  return { scan with
    cursor
    reversed := .scalar text false :: scan.reversed
    keyAllowed := false }

/-- A plain scalar. -/
def plainScalar? (scan : Scan) : Option Scan := do
  let scan ← scan.saveCandidate?
  let indent := (scan.indents.head?.map (· + 1)).getD 0
  let plain ← plain? scan.inFlow indent .nothing [] scan.cursor.place scan.cursor.rest
  return { scan with
    cursor := plain.next
    reversed := .scalar plain.text true :: scan.reversed
    keyAllowed := plain.endsLine }

/-- The scan after the token that starts with `character`. -/
def token? (scan : Scan) (character : Char) (rest : List Char) : Option Scan :=
  if scan.column = 0 && character = '%' then none
  else if isDocumentMark scan.column (character :: rest) then
    scan.documentMark? (if character = '-' then .documentStart else .documentEnd)
  else
    match character with
    | '[' => scan.openBracket? .flowSequenceStart
    | '\x7b' => scan.openBracket? .flowMappingStart
    | ']' => scan.closeBracket? .flowSequenceEnd
    | '\x7d' => scan.closeBracket? .flowMappingEnd
    | ',' => scan.comma?
    | '\x27' => scan.quotedScalar? .single
    | '"' => scan.quotedScalar? .double
    | _ =>
      if character = '-' && endsWord rest then scan.dash?
      else if character = '?' && (scan.inFlow || endsWord rest) then scan.explicitKey?
      else if character = ':' && (scan.inFlow || endsWord rest) then scan.value?
      else if startsPlain scan.inFlow character rest then scan.plainScalar?
      else none

/-- All tokens up to the end of the text. -/
def tokens? : (bound : Nat) → Scan → Option (List Token)
  | 0, _ => none
  | bound + 1, scan => do
    let scan ← scan.seek.dropStale?
    let scan := scan.closeBlocks (scan.column < ·)
    match scan.cursor.rest with
    | [] =>
      let scan ← (scan.closeBlocks fun _ => true).dropCandidate?
      return scan.reversed.reverse
    | character :: rest => tokens? bound (← scan.token? character rest)

end Scan

/-- The tokens of a text. -/
def Token.ofText? (text : String) : Option (List Token) := do
  let written := text.toList
  guard (written.all isAllowed)
  let characters := normalizeBreaks written
  Scan.tokens? (characters.length + 1) { cursor := { rest := characters } }

end DomainLang.Yaml
