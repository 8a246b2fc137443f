/-!
# YAML nodes

A scalar keeps its text and whether it was written without quotes; what type it
has is decided by whoever reads it. An absent node is the empty plain scalar.
-/

namespace DomainLang.Yaml

/-- A node of a YAML document. -/
inductive Node where
  | scalar (text : String) (isPlain : Bool)
  | sequence (items : List Node)
  | mapping (entries : List (Node × Node))
  deriving Repr, Inhabited

namespace Node

/-- An absent node. -/
def empty : Node := scalar "" true

/-- The text of a scalar. -/
def text? : Node → Option String
  | scalar text _ => some text
  | sequence _ | mapping _ => none

/-- The text of a scalar written without quotes. -/
def plain? : Node → Option String
  | scalar text true => some text
  | scalar _ false | sequence _ | mapping _ => none

/-- The truth value that a plain scalar spells. -/
def bool? (node : Node) : Option Bool :=
  match node.plain? with
  | some "true" | some "True" | some "TRUE" => some true
  | some "false" | some "False" | some "FALSE" => some false
  | _ => none

/-- The value of a digit in a base up to sixteen. -/
def digitIn? (base : Nat) (character : Char) : Option Nat :=
  let value :=
    if character.isDigit then some (character.toNat - '0'.toNat)
    else if 'a' ≤ character ∧ character ≤ 'f' then some (character.toNat - 'a'.toNat + 10)
    else if 'A' ≤ character ∧ character ≤ 'F' then some (character.toNat - 'A'.toNat + 10)
    else none
  value.filter (· < base)

/-- The number that digits of a base spell; no digits spell none. -/
def digits? (base : Nat) : List Char → Option Nat
  | [] => none
  | characters => characters.foldlM (fun total character => do
      return total * base + (← digitIn? base character)) 0

/-- Whether decimal digits with a needless leading zero are meant as a text. -/
def hasLeadingZero : List Char → Bool
  | '0' :: rest => !rest.isEmpty && rest.all Char.isDigit
  | _ => false

/-- The number that a plain scalar spells in decimal, or in base sixteen, eight or
two after `0x`, `0o` or `0b`; a plus sign may precede it. -/
def number? (node : Node) : Option Nat := do
  let text ← node.plain?
  let unsigned := match text.toList with
    | '+' :: rest => rest
    | characters => characters
  match unsigned with
  | '0' :: 'x' :: rest => digits? 16 rest
  | '0' :: 'o' :: rest => digits? 8 rest
  | '0' :: 'b' :: rest => digits? 2 rest
  | _ => if hasLeadingZero unsigned then none else digits? 10 unsigned

end Node
end DomainLang.Yaml
