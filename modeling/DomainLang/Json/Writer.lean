import DomainLang.Json.Value
import DomainLang.Number.Shortest

/-!
# Writing JSON text

Two layouts of one text: `render` on a single line and `pretty` with two spaces
per level. Both escape the quote, the backslash and control characters, and
nothing else. A double without fraction is written with a trailing `.0`, and
one far from unit size with an exponent; of two equally close shortest decimals
the even one is written.
-/

namespace DomainLang.Json

/-- One lower-case hexadecimal digit. -/
def hexDigit (value : Nat) : Char :=
  if value < 10 then Char.ofNat ('0'.toNat + value) else Char.ofNat ('a'.toNat + value - 10)

/-- A character inside a text. -/
def escaped (character : Char) : List Char :=
  match character with
  | '"' => ['\\', '"']
  | '\\' => ['\\', '\\']
  | '\n' => ['\\', 'n']
  | '\r' => ['\\', 'r']
  | '\t' => ['\\', 't']
  | '\x08' => ['\\', 'b']
  | '\x0c' => ['\\', 'f']
  | character =>
    if character.toNat < 0x20 then
      ['\\', 'u', '0', '0', hexDigit (character.toNat / 16), hexDigit (character.toNat % 16)]
    else [character]

/-- A text between quotes. -/
def quoted (content : String) : String :=
  String.ofList ('"' :: content.toList.flatMap escaped ++ ['"'])

/-- The notation of numbers that are not integers: positional from `10 ^ -5` up
to `10 ^ 16`, with an exponent outside. -/
def doubleText (value : Double) : String :=
  if !value.isFinite then "null"
  else if value.isZero then value.text ++ ".0"
  else
    let decimal := value.shortest .even
    let digits := toString decimal.digits
    let point := decimal.power + digits.length
    let sign := if value.isNegative then "-" else ""
    if 0 ≤ decimal.power ∧ point ≤ 16 then sign ++ decimal.positional ++ ".0"
    else if -5 < point ∧ point ≤ 16 then sign ++ decimal.positional
    else
      let fraction := digits.toList.drop 1
      let mantissa := String.ofList
        (digits.toList.take 1 ++ (if fraction.isEmpty then [] else '.' :: fraction))
      sign ++ mantissa ++ "e" ++ toString (point - 1)

mutual

/-- The text of a value on one line. -/
def render : Json → String
  | .null => "null"
  | .bool true => "true"
  | .bool false => "false"
  | .integer value => toString value
  | .double value => doubleText value
  | .text content => quoted content
  | .list items => "[" ++ ",".intercalate (renderItems items) ++ "]"
  | .object fields => "\x7b" ++ ",".intercalate (renderFields fields) ++ "\x7d"
  | .unreadable => "null"

def renderItems : List Json → List String
  | [] => []
  | item :: rest => item.render :: renderItems rest

/-- The texts of the fields of an object. -/
def renderFields : List (String × Json) → List String
  | [] => []
  | (name, value) :: rest => (quoted name ++ ":" ++ value.render) :: renderFields rest

end

/-- A new line indented by two spaces per level. -/
def newLine (level : Nat) : String :=
  "\n" ++ String.ofList (List.replicate (2 * level) ' ')

/-- The parts of a list or object, each on a line of its own. -/
def block (opening closing : String) (level : Nat) (parts : List String) : String :=
  if parts.isEmpty then opening ++ closing
  else
    opening ++ newLine (level + 1) ++ ("," ++ newLine (level + 1)).intercalate parts ++
      newLine level ++ closing

mutual

/-- The text of a value over several lines, standing at an indentation level. -/
def prettyAt (level : Nat) : Json → String
  | .list items => block "[" "]" level (prettyItems (level + 1) items)
  | .object fields => block "\x7b" "\x7d" level (prettyFields (level + 1) fields)
  | json => json.render

/-- The texts of the items of a list at their level. -/
def prettyItems (level : Nat) : List Json → List String
  | [] => []
  | item :: rest => item.prettyAt level :: prettyItems level rest

/-- The texts of the fields of an object at their level. -/
def prettyFields (level : Nat) : List (String × Json) → List String
  | [] => []
  | (name, value) :: rest =>
    (quoted name ++ ": " ++ value.prettyAt level) :: prettyFields level rest

end

/-- The text of a value over several lines. -/
def pretty (json : Json) : String :=
  json.prettyAt 0

end DomainLang.Json
