import DomainLang.Diagnostic.Basic
import DomainLang.Program.Basic

/-!
# Rules for criteria, orderings and foreign keys

Of a member path the first step that fails is reported, unless it fails because a
name is ambiguous. Lists are operands of `in` only. An ordering is by direct
properties and belongs to a to-many end. A foreign key is optional when its end is.
-/

namespace DomainLang.Rules

open Resolved (Criteria Hop MemberPath OrderBy Value)

/-- The first step along association ends that failed, when it was not found; the
`otherwise` findings when every step succeeded. -/
def brokenHop (unit : UnitId) (otherwise : List Finding) : List Hop → List Finding
  | [] => otherwise
  | hop :: rest =>
    match hop.target with
    | .resolved _ => brokenHop unit otherwise rest
    | .ambiguous => []
    | .notFound => [⟨.unknownHop hop.name.name, unit, hop.name.span⟩]

/-- A member that was not found on its classifier. -/
def brokenMember (path : MemberPath) : List Finding :=
  if path.property.isNotFound then
    let problem := match path.origin with
      | .this => Problem.unknownThisMember path.text
      | .type _ => .unknownTypeMember path.text
    [⟨problem, path.unit, path.member.span⟩]
  else []

/-- The first step of a path that was not found. -/
def memberPath (path : MemberPath) : List Finding :=
  match path.classifier with
  | .resolved _ => brokenHop path.unit (brokenMember path) path.hops
  | .ambiguous => []
  | .notFound =>
    match path.origin with
    | .this => []
    | .type name => [⟨.unknownMemberType name.name, path.unit, name.span⟩]

/-- Whether an operator does not go with its operands. -/
def isMisused (operator : Operator) (source target : Value) : Bool :=
  if operator = .inList then !(target.isList || target.parameterUse?.isSome)
  else source.isList || target.isList

/-- An operator that does not go with its operands. -/
def misusedOperator (unit : UnitId) : Criteria → List Finding
  | .operator source operator target span =>
    if isMisused operator source target then [⟨.misusedOperator operator, unit, span⟩] else []
  | _ => []

def criteriaRules (unit : UnitId) (criteria : Criteria) : List Finding :=
  criteria.memberPaths.flatMap memberPath ++
    (criteria.parameterUses.filter (·.2.isNotFound)).map (fun (name, _) =>
      ⟨.unknownVariable name.name, unit, name.span⟩) ++
    criteria.expressions.flatMap (misusedOperator unit)

def orderByRules (ordering : OrderBy) : List Finding :=
  ordering.members.flatMap fun member =>
    match member.path.hops with
    | [] => memberPath member.path
    | first :: _ =>
      [⟨.orderedThroughEnd member.path.member.name first.name.name, member.path.unit,
        first.name.span⟩]

/-- The rules for the clauses and the ordering of a service. -/
def serviceCriteria (service : Resolved.Service) : List Finding :=
  service.clauses.flatMap (fun clause =>
      clause.criteria.elim [] (criteriaRules clause.unit)) ++
    service.orderBy.elim [] orderByRules

/-- The rules for the ordering of an association end. -/
def endOrdering (associationEnd : Resolved.AssociationEnd) : List Finding :=
  associationEnd.orderBy.elim [] fun ordering =>
    (if associationEnd.declaration.multiplicity.isToOne then
      [⟨.orderedToOne associationEnd.name.name associationEnd.declaration.multiplicity,
        associationEnd.context.unit, ordering.span⟩] else []) ++
      orderByRules ordering

def foreignKeyRule (program : Program) (unit : UnitId) (foreignKey : Resolved.ForeignKey) :
    List Finding :=
  let associationEnd := program.associationEnds.get foreignKey.associationEnd
  let property := program.properties.get foreignKey.foreignKey
  match associationEnd.declaration.multiplicity, property.declaration.optional with
  | .oneToOne, true =>
    [⟨.optionalForRequired associationEnd.name.name property.name.name, unit,
      associationEnd.declaration.span⟩]
  | .zeroToOne, false =>
    [⟨.requiredForOptional associationEnd.name.name property.name.name, unit,
      associationEnd.declaration.span⟩]
  | _, _ => []

/-- The rules for all criteria, orderings and foreign keys. -/
def criteria (program : Program) : List Finding :=
  program.associations.records.flatMap (fun association =>
      association.relationship.elim [] (criteriaRules association.header.unit)) ++
    program.services.records.flatMap serviceCriteria ++
    program.associationEnds.records.flatMap endOrdering ++
    program.associations.records.flatMap fun association =>
      association.foreignKeys.flatMap (foreignKeyRule program association.header.unit)

end DomainLang.Rules
