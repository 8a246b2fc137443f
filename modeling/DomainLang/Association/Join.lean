import DomainLang.Program.Basic

/-!
# Joins and foreign keys

A relationship is a direct join when it is a conjunction of equations between a
property of the class at hand and a property of the opposite class. The
properties on the side that navigates a to-one end are then foreign keys.
-/

namespace DomainLang

open Resolved (Criteria MemberPath Value)

namespace Association

/-- The operand that starts at the class at hand, then the other one. -/
def thisAndOther? : Value → Value → Option (MemberPath × MemberPath)
  | .member source, .member target =>
    match source.isThis, target.isThis with
    | true, false => some (source, target)
    | false, true => some (target, source)
    | _, _ => none
  | _, _ => none

/-- The two properties of an equation between direct properties. -/
def equationPair? (opposite : ClassifierIndex) (source target : Value) :
    Option (PropertyIndex × PropertyIndex) := do
  let (this, other) ← thisAndOther? source target
  if this.hops.isEmpty && other.hops.isEmpty && this.classifier.isResolved &&
      other.classifier.value? = some opposite then
    return (← this.property.value?, ← other.property.value?)
  else none

/-- The pairs of properties that a conjunction of equations joins, left to right. -/
def equationPairs? (opposite : ClassifierIndex) :
    Criteria → Option (List (PropertyIndex × PropertyIndex))
  | .and left right => do
    return (← equationPairs? opposite left) ++ (← equationPairs? opposite right)
  | .operator source .equal target _ => do
    return [← equationPair? opposite source target]
  | _ => none

/-- The pairs of properties of a direct join with the opposite class. -/
def directJoinPairs? (criteria : Criteria) (opposite : Resolution ClassifierIndex) :
    Option (List (PropertyIndex × PropertyIndex)) :=
  opposite.value?.bind fun classifier => equationPairs? classifier criteria

/-- The foreign keys of a direct join: on the source end when it is to-one, else on
the target end when that is. -/
def foreignKeys (program : Program) (association : Resolved.Association)
    (pairs : List (PropertyIndex × PropertyIndex)) : List Resolved.ForeignKey :=
  let isToOne := fun index =>
    (program.associationEnds.get index).declaration.multiplicity.isToOne
  if isToOne association.source then
    pairs.map fun (this, other) => ⟨association.source, other, this⟩
  else if isToOne association.target then
    pairs.map fun (this, other) => ⟨association.target, this, other⟩
  else []

/-- The association with its join and foreign keys, once its relationship is known. -/
def classify (program : Program) (association : Resolved.Association) : Resolved.Association :=
  match association.relationship with
  | none => association
  | some criteria =>
    let opposite := (program.associationEnds.get association.target).target.map .klass
    match directJoinPairs? criteria opposite with
    | none => { association with join := some .predicate, foreignKeys := [] }
    | some pairs =>
      { association with
        join := some .direct
        foreignKeys := foreignKeys program association pairs }

end Association

namespace Program

/-- Find the join and the foreign keys of every association. -/
def classifyJoins (program : Program) : Program :=
  { program with associations := program.associations.map (Association.classify program) }

end Program
end DomainLang
