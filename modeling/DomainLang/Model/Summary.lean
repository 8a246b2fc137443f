import DomainLang.Model.Domain

/-!
# Summaries of models

How many elements of each kind a model has. Elements are counted by name, and
properties per class with the inherited ones.
-/

namespace DomainLang

open Model

/-- The number of elements of each kind. -/
structure ModelSummary where
  enumerations : Nat
  interfaces : Nat
  classes : Nat
  associations : Nat
  projections : Nat
  serviceGroups : Nat
  properties : Nat
  foreignKeys : Nat
  deriving DecidableEq, Repr, Inhabited

namespace ModelSummary

/-- Count the elements of a model. -/
def ofModel (model : DomainModel) : ModelSummary where
  enumerations := model.topLevel.countP fun
    | .enumeration _ => true
    | _ => false
  interfaces := model.topLevel.countP fun
    | .interface _ => true
    | _ => false
  classes := model.topLevel.countP fun
    | .klass _ => true
    | _ => false
  associations := model.topLevel.countP fun
    | .association _ => true
    | _ => false
  projections := model.topLevel.countP fun
    | .projection _ => true
    | _ => false
  serviceGroups := model.topLevel.countP fun
    | .serviceGroup _ => true
    | _ => false
  properties := (model.topLevel.flatMap fun
    | .klass id => model.properties (.klass id)
    | _ => []).length
  foreignKeys := model.parts.foreignKeys.length

def toJson (summary : ModelSummary) : Json :=
  .object [("enumerations", .integer summary.enumerations),
    ("interfaces", .integer summary.interfaces), ("classes", .integer summary.classes),
    ("associations", .integer summary.associations),
    ("projections", .integer summary.projections),
    ("service_groups", .integer summary.serviceGroups),
    ("properties", .integer summary.properties),
    ("foreign_keys", .integer summary.foreignKeys)]

end ModelSummary
end DomainLang
