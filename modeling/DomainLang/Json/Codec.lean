import DomainLang.Json.Value

/-!
# Codecs

A `Codec` pairs the JSON form of a type with its reading. The shapes are the
same for every type of the library:

- a record is an object with one field per component, and may also be read from
  a list of all its components in order;
- a word of a vocabulary is its name as a text, and may also be read from an
  object with that name and `null`;
- any other alternative is an object with one field, the name of the alternative;
- an absent optional component is `null`, and may also be missing from an object.

Reading ignores fields it does not know and refuses a known field given twice.
-/

namespace DomainLang

/-- The JSON form of a type and how to read it back. -/
class Codec (α : Type) where
  encode : α → Json
  decode : Json → Option α

export Codec (encode decode)

namespace Json

/-- The one value of field `name`: absent, present, or refused when repeated. -/
def uniqueField (fields : List (String × Json)) (name : String) : Option (Option Json) :=
  match fieldsNamed name fields with
  | [] => some none
  | [value] => some (some value)
  | _ => none

/-- The components of a record by name, from an object or from a list of them all. -/
def components? (names : List String) : Json → Option (List (Option Json))
  | .object fields => names.mapM (uniqueField fields)
  | .list items => if items.length = names.length then some (items.map some) else none
  | _ => none

/-- The components of a record whose components may all be missing: from an object,
or from a list of the first of them. -/
def leadingComponents? (names : List String) : Json → Option (List (Option Json))
  | .object fields => names.mapM (uniqueField fields)
  | .list items =>
    if items.length ≤ names.length then
      some (items.map some ++ List.replicate (names.length - items.length) none)
    else none
  | _ => none

/-- The name of an alternative and its content, if it has one. -/
def alternative? : Json → Option (String × Option Json)
  | .text name => some (name, none)
  | .object [(name, content)] => some (name, some content)
  | _ => none

/-- The name of an alternative without content. -/
def word? : Json → Option String
  | .text name => some name
  | .object [(name, .null)] => some name
  | _ => none

/-- An object with the single field `name`. -/
def tagged (name : String) (content : Json) : Json :=
  .object [(name, content)]

end Json

namespace Codec

/-- A component that must be there. -/
def required {α : Type} [Codec α] (component : Option Json) : Option α :=
  component.bind decode

/-- A component with a value that stands for a missing one. -/
def withDefault {α : Type} [Codec α] (missing : α) : Option Json → Option α
  | none => some missing
  | some json => decode json

/-- A component that may be missing or `null`. -/
def optional {α : Type} [Codec α] : Option Json → Option (Option α)
  | none => some none
  | some .null => some none
  | some json => (decode json).map some

instance : Codec Bool where
  encode := .bool
  decode
    | .bool value => some value
    | _ => none

instance : Codec String where
  encode := .text
  decode
    | .text value => some value
    | _ => none

/-- A natural number below a bound. -/
def naturalBelow (bound : Nat) : Json → Option Nat
  | .integer (.ofNat value) => if value < bound then some value else none
  | _ => none

/-- An integer between two bounds, the upper one excluded. -/
def integerIn (low high : Int) : Json → Option Int
  | .integer value => if low ≤ value ∧ value < high then some value else none
  | _ => none

instance : Codec UInt16 where
  encode value := .integer value.toNat
  decode json := (naturalBelow 0x10000 json).map UInt16.ofNat

instance : Codec UInt32 where
  encode value := .integer value.toNat
  decode json := (naturalBelow 0x100000000 json).map UInt32.ofNat

instance : Codec Int64 where
  encode value := .integer value.toInt
  decode json := (integerIn (-0x8000000000000000) 0x8000000000000000 json).map Int64.ofInt

instance : Codec Double where
  encode value := if value.isFinite then .double value else .null
  decode
    | .double value => some value
    | .integer value => some (Double.ofInt value)
    | _ => none

instance {α : Type} [Codec α] : Codec (List α) where
  encode values := .list (values.map encode)
  decode
    | .list items => items.mapM decode
    | _ => none

instance {α : Type} [Codec α] : Codec (Option α) where
  encode
    | none => .null
    | some value => encode value
  decode
    | .null => some none
    | json => (decode json).map some

end Codec
end DomainLang
