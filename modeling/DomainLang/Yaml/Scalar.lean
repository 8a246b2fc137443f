import DomainLang.Json.Reader
import DomainLang.Yaml.Character

/-!
# YAML scalars

A scalar may continue on further lines. The words of a scalar are separated by
gaps: a gap within a line stands for its blanks, and a gap over lines is folded,
so that its first break is a blank unless more breaks follow.
-/

namespace DomainLang.Yaml

/-- What stands between two words of a scalar. -/
inductive Gap where
  /-- Blanks within a line. -/
  | blanks (characters : List Char)
  /-- A line break and further ones; the first is absent when it was escaped. -/
  | breaks (first : Option Char) (others : List Char)

namespace Gap

/-- Nothing between two characters. -/
def nothing : Gap := blanks []

/-- Whether there is nothing. -/
def isNothing : Gap → Bool
  | blanks characters => characters.isEmpty
  | breaks _ _ => false

/-- Whether the gap goes over lines. -/
def isMultiline : Gap → Bool
  | blanks _ => false
  | breaks _ _ => true

/-- The gap with one more blank; blanks around breaks do not count. -/
def addBlank (gap : Gap) (character : Char) : Gap :=
  match gap with
  | blanks characters => blanks (characters ++ [character])
  | breaks first others => breaks first others

/-- The gap with one more line break. -/
def addBreak (gap : Gap) (character : Char) : Gap :=
  match gap with
  | blanks _ => breaks (some character) []
  | breaks first others => breaks first (others ++ [character])

/-- What the gap stands for. -/
def folded : Gap → List Char
  | blanks characters => characters
  | breaks (some '\n') [] => [' ']
  | breaks (some '\n') others => others
  | breaks first others => first.toList ++ others

/-- Put the gap behind the characters of a text, the last one first. -/
def behind (gap : Gap) (reversed : List Char) : List Char :=
  gap.folded.reverse ++ reversed

end Gap

/-- Whether a plain scalar can start with `character` before `rest`. -/
def startsPlain (inFlow : Bool) (character : Char) (rest : List Char) : Bool :=
  match character with
  | '-' => !rest.head?.any isBlank
  | '?' | ':' => !inFlow && !endsWord rest
  | _ =>
    !isBlank character && !isBreak character && !isFlowMark character &&
      character ∉ ['#', '&', '*', '!', '|', '>', '\x27', '"', '%', '@', '\x60']

/-- A plain scalar with the place of the next token's line. -/
structure Plain where
  text : String
  /-- Whether lines were left behind after the last word. -/
  endsLine : Bool
  next : Cursor

/-- The plain scalar from here on, whose further lines are indented by at least
`indent`. It ends before a comment, a document mark, a colon that ends a word, or a
line that is indented less. -/
def plain? (inFlow : Bool) (indent : Nat) :
    (gap : Gap) → (reversed : List Char) → Place → List Char → Option Plain
  | gap, reversed, place, [] =>
    some ⟨String.ofList reversed.reverse, gap.isMultiline, ⟨place, []⟩⟩
  | gap, reversed, place, character :: rest =>
    if isBlank character then
      if character = '\t' && gap.isMultiline && place.column < indent then none
      else plain? inFlow indent (gap.addBlank character) reversed (place.behind character) rest
    else if isBreak character then
      plain? inFlow indent (gap.addBreak character) reversed (place.behind character) rest
    else
      let startsOther := !gap.isNothing &&
        ((!inFlow && place.column < indent) || character = '#' ||
          isDocumentMark place.column (character :: rest))
      let stops := startsOther || (character = ':' && endsWord rest) ||
        (inFlow && isFlowMark character)
      if !startsOther && inFlow && character = ':' &&
          rest.head?.any (fun next => next = '?' || isFlowMark next) then none
      else if stops then
        some ⟨String.ofList reversed.reverse, gap.isMultiline, ⟨place, character :: rest⟩⟩
      else
        plain? inFlow indent .nothing (character :: gap.behind reversed)
          (place.behind character) rest

/-- The character whose number has the given count of hexadecimal digits. -/
def hexadecimal? : (count value : Nat) → List Char → Option Char
  | 0, value, _ => if value.isValidChar then some (Char.ofNat value) else none
  | _ + 1, _, [] => none
  | count + 1, value, character :: rest => do
    hexadecimal? count (value * 16 + (← Json.hexValue? character)) rest

/-- The character that an escape in double quotes stands for, and how many
characters follow its backslash. -/
def escaped? : List Char → Option (Char × Nat)
  | '0' :: _ => some ('\x00', 1)
  | 'a' :: _ => some ('\x07', 1)
  | 'b' :: _ => some ('\x08', 1)
  | 't' :: _ => some ('\t', 1)
  | '\t' :: _ => some ('\t', 1)
  | 'n' :: _ => some ('\n', 1)
  | 'v' :: _ => some ('\x0b', 1)
  | 'f' :: _ => some ('\x0c', 1)
  | 'r' :: _ => some ('\r', 1)
  | 'e' :: _ => some ('\x1b', 1)
  | ' ' :: _ => some (' ', 1)
  | '"' :: _ => some ('"', 1)
  | '/' :: _ => some ('/', 1)
  | '\\' :: _ => some ('\\', 1)
  | 'N' :: _ => some ('\u0085', 1)
  | '_' :: _ => some ('\u00a0', 1)
  | 'L' :: _ => some ('\u2028', 1)
  | 'P' :: _ => some ('\u2029', 1)
  | 'x' :: rest => (hexadecimal? 2 0 rest).map (·, 3)
  | 'u' :: rest => (hexadecimal? 4 0 rest).map (·, 5)
  | 'U' :: rest => (hexadecimal? 8 0 rest).map (·, 9)
  | _ => none

/-- The two ways to quote a scalar. -/
inductive Quote where
  | single
  | double

/-- The character that opens and closes a quoted scalar. -/
def Quote.mark : Quote → Char
  | single => '\x27'
  | double => '"'

/-- A scalar in quotes from the place after the opening one: its text and the place
after the closing one. Within single quotes two of them stand for one; within
double quotes a backslash starts an escape, and hides a line break. -/
def quoted? (quote : Quote) :
    (bound : Nat) → (gap : Gap) → (reversed : List Char) → Cursor → Option (String × Cursor)
  | 0, _, _, _ => none
  | bound + 1, gap, reversed, cursor =>
    match cursor.rest with
    | [] => none
    | character :: rest =>
      if isDocumentMark cursor.place.column cursor.rest then none
      else if isBlank character then
        quoted? quote bound (gap.addBlank character) reversed (cursor.skip 1)
      else if isBreak character then
        quoted? quote bound (gap.addBreak character) reversed (cursor.skip 1)
      else
        let reversed := gap.behind reversed
        match quote, character with
        | .single, '\x27' =>
          if rest.head? = some '\x27' then
            quoted? quote bound .nothing ('\x27' :: reversed) (cursor.skip 2)
          else some (String.ofList reversed.reverse, cursor.skip 1)
        | .double, '"' => some (String.ofList reversed.reverse, cursor.skip 1)
        | .double, '\\' =>
          if rest.head?.any isBreak then
            quoted? quote bound (.breaks none []) reversed (cursor.skip 2)
          else do
            let (meant, count) ← escaped? rest
            quoted? quote bound .nothing (meant :: reversed) (cursor.skip (count + 1))
        | _, _ => quoted? quote bound .nothing (character :: reversed) (cursor.skip 1)

end DomainLang.Yaml
