import DomainLang.Number.Double

/-!
# JSON values

Objects keep their fields in written order and may repeat a name; which
repetition counts is for the reader of the object to decide. An integer is a
number written without fraction and exponent that fits 64 bits; every other
number is a double.
-/

namespace DomainLang

inductive Json where
  | null
  | bool (value : Bool)
  | integer (value : Int)
  | double (value : Double)
  | text (value : String)
  | list (items : List Json)
  | object (fields : List (String × Json))
  /-- Grammatical, but meaning nothing: a number beyond the largest double, a text
  with half of a surrogate pair, an object with such a name, or a list or object
  that nests too deeply. It can only be ignored. -/
  | unreadable
  deriving Inhabited, Repr

namespace Json

mutual

/-- How deeply lists and objects nest. -/
def depth : Json → Nat
  | .list items => depthOfItems items + 1
  | .object fields => depthOfFields fields + 1
  | _ => 0

/-- The greatest depth among the items of a list. -/
def depthOfItems : List Json → Nat
  | [] => 0
  | item :: rest => max item.depth (depthOfItems rest)

/-- The greatest depth among the fields of an object. -/
def depthOfFields : List (String × Json) → Nat
  | [] => 0
  | (_, value) :: rest => max value.depth (depthOfFields rest)

end

/-- Every value of an object's field `name`, in written order. -/
def fieldsNamed (name : String) (fields : List (String × Json)) : List Json :=
  fields.filterMap fun field => if field.1 = name then some field.2 else none

/-- The field `name` of an object; the last one when it is repeated. -/
def field? (json : Json) (name : String) : Option Json :=
  match json with
  | .object fields => (fieldsNamed name fields).getLast?
  | _ => none

/-- Append `field`, or give an earlier field of that name its value. -/
def setField (fields : List (String × Json)) (field : String × Json) : List (String × Json) :=
  if fields.any (·.1 = field.1) then
    fields.map fun other => if other.1 = field.1 then field else other
  else fields ++ [field]

mutual

/-- Each object with one field per name, the last one written. -/
def lastFieldWins : Json → Json
  | .list items => .list (lastFieldWinsItems items)
  | .object fields => .object ((lastFieldWinsFields fields).foldl setField [])
  | json => json

def lastFieldWinsItems : List Json → List Json
  | [] => []
  | item :: rest => item.lastFieldWins :: lastFieldWinsItems rest

def lastFieldWinsFields : List (String × Json) → List (String × Json)
  | [] => []
  | (name, value) :: rest => (name, value.lastFieldWins) :: lastFieldWinsFields rest

end

end Json
end DomainLang
