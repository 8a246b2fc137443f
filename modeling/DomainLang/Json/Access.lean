import DomainLang.Json.Value

/-!
# Reading single values

Partial views of JSON values for readers that treat a field that is `null` as one
that is absent, and writers of optional values and lists.
-/

namespace DomainLang.Json

/-- A field that is there and not `null`. -/
def presentField? (json : Json) (name : String) : Option Json :=
  match json.field? name with
  | some .null => none
  | value => value

def items? : Json → Option (List Json)
  | .list items => some items
  | _ => none

def text? : Json → Option String
  | .text value => some value
  | _ => none

/-- A truth value. -/
def bool? : Json → Option Bool
  | .bool value => some value
  | _ => none

/-- An integer that is not negative. -/
def natural? : Json → Option Nat
  | .integer value => if 0 ≤ value then some value.toNat else none
  | _ => none

/-- The items of a field, none when it is absent. -/
def listField? (json : Json) (name : String) : Option (List Json) :=
  match json.presentField? name with
  | none => some []
  | some value => value.items?

def textField? (json : Json) (name : String) : Option String :=
  (json.presentField? name).bind text?

/-- The text of a field that may be absent. -/
def optionalText? (json : Json) (name : String) : Option (Option String) :=
  match json.presentField? name with
  | none => some none
  | some value => value.text?.map some

/-- The texts of a field, none when it is absent. -/
def textsField? (json : Json) (name : String) : Option (List String) := do
  (← json.listField? name).mapM text?

/-- A flag, false when it is absent. -/
def flagField? (json : Json) (name : String) : Option Bool :=
  match json.presentField? name with
  | none => some false
  | some value => value.bool?

/-- A natural number. -/
def natural (value : Nat) : Json := .integer value

/-- A list of values, each written alike. -/
def listOf {α : Type} (write : α → Json) (values : List α) : Json :=
  .list (values.map write)

/-- A value that may be missing. -/
def orNull {α : Type} (write : α → Json) : Option α → Json
  | none => .null
  | some value => write value

end DomainLang.Json
