import DomainLang.Assembly.Allocation
import DomainLang.Model.Criteria

/-!
# Assembling criteria

Every name of the criteria becomes the id of what it was resolved to. A name
that was not resolved is a fault: a program with such a name has an error and is
not assembled.
-/

namespace DomainLang.Assembly

/-- The resolved value, or a fault that says what is missing. -/
def resolved {α : Type} (resolution : Resolution α) (what : String) : Except Fault α :=
  match resolution with
  | .resolved value => .ok value
  | .ambiguous | .notFound => .error (.missingIndex what)

/-- The value that an analysis has filled in, or a fault that says what is missing. -/
def filled {α : Type} (value : Option α) (what : String) : Except Fault α :=
  match value with
  | some value => .ok value
  | none => .error (.missingIndex what)

/-- Assemble the step of a path along an association end. -/
def hop (allocation : Allocation) (step : Resolved.Hop) : Except Fault Model.AssociationEndId := do
  let target ← resolved step.target ("association end '" ++ step.name.name ++ "'")
  Allocation.idOf allocation.associationEnds target

def memberPath (allocation : Allocation) (path : Resolved.MemberPath) :
    Except Fault Model.MemberPath := do
  let what := "member path ending in '" ++ path.member.name ++ "'"
  let classifier ← resolved path.classifier what
  let hops ← path.hops.mapM (hop allocation)
  let property ← resolved path.property what
  return ⟨← allocation.classifierId classifier, hops,
    ← Allocation.idOf allocation.properties property⟩

/-- Assemble an operand. -/
def value (allocation : Allocation) : Resolved.Value → Except Fault Model.Value
  | .member path =>
    match path.origin with
    | .this => return .thisMember (← memberPath allocation path)
    | .type _ => return .typeMember (← memberPath allocation path)
  | .variable name parameter => do
    let index ← resolved parameter ("variable '" ++ name.name ++ "'")
    return .variable (← Allocation.idOf allocation.parameters index)
  | .literal constant _ => return .literal constant
  | .literals constants _ => return .literals constants
  | .user _ => return .user

def criteria (allocation : Allocation) : Resolved.Criteria → Except Fault Model.Criteria
  | .all _ => return .all
  | .and left right => return .and (← criteria allocation left) (← criteria allocation right)
  | .or left right => return .or (← criteria allocation left) (← criteria allocation right)
  | .operator source comparison target _ =>
    return .operator (← value allocation source) comparison (← value allocation target)
  | .edgePoint path _ => return .edgePoint (← memberPath allocation path)

/-- Assemble one key of an ordering. -/
def orderByMember (allocation : Allocation) (member : Resolved.OrderByMember) :
    Except Fault Model.OrderByMember := do
  return ⟨← memberPath allocation member.path, member.direction⟩

/-- Assemble an ordering, if there is one. -/
def orderBy (allocation : Allocation) :
    Option Resolved.OrderBy → Except Fault (Option Model.OrderBy)
  | none => return none
  | some ordering => return some ⟨← ordering.members.mapM (orderByMember allocation)⟩

end DomainLang.Assembly
