import DomainLang.Criteria.Path
import DomainLang.Service.Inference

/-!
# Resolving criteria and orderings

Relationships are about the class that the source end leads to, clauses and
orderings of services about the class of their group, and orderings of ends about
the class that the end leads to. Variables are the parameters of the url.

Every property that a path resolves to counts as referred to.
-/

namespace DomainLang

open Resolved (MemberPath)

/-- What the names in criteria refer to. -/
structure Scope where
  this : Resolution ClassifierIndex
  unit : UnitId
  parameters : List ParameterIndex
  deriving DecidableEq, Repr

namespace Program

/-- Look up the names in an operand. -/
def resolveValue (registry : Registry) (program : Program) (scope : Scope) :
    Syntax.Value → Resolved.Value
  | .thisMember path => .member (program.resolveThisPath scope.this scope.unit path)
  | .typeMember path => .member (program.resolveTypePath registry scope.unit path)
  | .variable _ name => .variable name (.ofMatches (scope.parameters.filter fun parameter =>
      (program.parameters.get parameter).name.name = name.name))
  | .literal constant => .literal constant.value constant.span
  | .literalList node constants => .literals (constants.map (·.value)) node.span
  | .user node => .user node.span

/-- Look up the names in criteria. -/
def resolveCriteria (registry : Registry) (program : Program) (scope : Scope) :
    Syntax.Criteria → Resolved.Criteria
  | .all node => .all node.span
  | .and _ left right =>
    .and (program.resolveCriteria registry scope left)
      (program.resolveCriteria registry scope right)
  | .or _ left right =>
    .or (program.resolveCriteria registry scope left) (program.resolveCriteria registry scope right)
  | .operator node source mark target =>
    .operator (program.resolveValue registry scope source) mark.kind
      (program.resolveValue registry scope target) node.span
  | .edgePoint node path =>
    .edgePoint (program.resolveThisPath scope.this scope.unit path) node.span

/-- Look up the names in an ordering. -/
def resolveOrderBy (program : Program) (this : Resolution ClassifierIndex) (unit : UnitId)
    (ordering : Syntax.OrderBy) : Resolved.OrderBy where
  members := ordering.members.map fun member =>
    ⟨program.resolveThisPath this unit member.path, member.direction⟩
  span := ordering.span

/-- The class that a service is about. -/
def serviceClass (registry : Registry) (program : Program) (service : Resolved.Service) :
    Resolution ClassifierIndex :=
  (registry.classes.find (Service.className program service).name).map .klass

/-- The properties that paths resolve to. -/
def propertiesOf (paths : List MemberPath) : List PropertyIndex :=
  paths.filterMap (·.property.value?)

def orderingPaths (ordering : Option Resolved.OrderBy) : List MemberPath :=
  (ordering.elim [] (·.members)).map (·.path)

/-- Look up the names in the orderings of ends and services. -/
def linkOrderings (registry : Registry) (program : Program) : Program :=
  let ends := program.associationEnds.map fun associationEnd =>
    { associationEnd with
      orderBy := associationEnd.declaration.orderBy.map
        (program.resolveOrderBy (associationEnd.target.map .klass) associationEnd.context.unit) }
  let services := program.services.map fun service =>
    { service with
      orderBy := service.declaration.orderBy.map
        (program.resolveOrderBy (program.serviceClass registry service) service.context.unit) }
  let paths := (ends.records.map (·.orderBy) ++ services.records.map (·.orderBy)).flatMap
    orderingPaths
  { program with associationEnds := ends, services }.refer (propertiesOf paths)

/-- The scope of the relationship of an association. -/
def relationshipScope (program : Program) (association : Resolved.Association) : Scope where
  this := program.endTarget association.source
  unit := association.header.unit
  parameters := []

def clauseScope (registry : Registry) (program : Program) (service : Resolved.Service)
    (clause : Resolved.Clause) : Scope where
  this := program.serviceClass registry service
  unit := clause.unit
  parameters := (program.urls.get service.url).parameters

/-- Look up the names in relationships and clauses. -/
def linkCriteria (registry : Registry) (program : Program) : Program :=
  let associations := program.associations.map fun association =>
    { association with
      relationship := some (program.resolveCriteria registry
        (program.relationshipScope association) association.declaredRelationship) }
  let services := program.services.map fun service =>
    { service with
      clauses := service.clauses.map fun clause =>
        { clause with
          criteria := some (program.resolveCriteria registry
            (program.clauseScope registry service clause) clause.declaration.criteria) } }
  let criteria := associations.records.filterMap (·.relationship) ++
    services.records.flatMap fun service => service.clauses.filterMap (·.criteria)
  { program with associations, services }.refer
    (propertiesOf (criteria.flatMap Resolved.Criteria.memberPaths))

end Program
end DomainLang
