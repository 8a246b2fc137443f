import DomainLang.Proofs.Findings
import DomainLang.Proofs.Links.References

/-!
# Well-typed paths, criteria and projections

A path is well typed when each step goes along an end that the class at hand has, itself or
from a superclass, and the last classifier has the property, the nearest of its name. Criteria
and orderings are well typed when their paths are and their variables are parameters in scope.
An element of a projection is looked up on the classifier that its parent leads to.

Whatever lookups give is well typed as soon as the rules for paths and projections report
no error, provided that names are not ambiguous and ends lead somewhere: `Program.Navigable`.
-/

namespace DomainLang

open Resolved

namespace Resolved.Criteria

@[simp]
theorem memberPaths_and (left right : Criteria) :
    (and left right).memberPaths = left.memberPaths ++ right.memberPaths := by
  simp [memberPaths, expressions, ownPaths]

@[simp]
theorem memberPaths_or (left right : Criteria) :
    (or left right).memberPaths = left.memberPaths ++ right.memberPaths := by
  simp [memberPaths, expressions, ownPaths]

@[simp]
theorem parameterUses_and (left right : Criteria) :
    (and left right).parameterUses = left.parameterUses ++ right.parameterUses := by
  simp [parameterUses, expressions, ownParameterUses]

@[simp]
theorem parameterUses_or (left right : Criteria) :
    (or left right).parameterUses = left.parameterUses ++ right.parameterUses := by
  simp [parameterUses, expressions, ownParameterUses]

end Resolved.Criteria

namespace Program

/-- A walk along association ends from one classifier to another. -/
inductive Walks (program : Program) : ClassifierIndex → List Hop → ClassifierIndex → Prop
  | here (classifier : ClassifierIndex) : Walks program classifier [] classifier
  | step {klass owner target : ClassIndex} {last : ClassifierIndex} {hop : Hop}
      {associationEnd : AssociationEndIndex} {rest : List Hop}
      (found : hop.target = .resolved associationEnd)
      (holds : program.associationEnds.Holds associationEnd)
      (called : program.endName associationEnd = hop.name.name)
      (owned : (program.associationEnds.get associationEnd).owner = some owner)
      (above : program.isSubclassOf klass owner)
      (leads : (program.associationEnds.get associationEnd).target = .resolved target)
      (onward : Walks program (.klass target) rest last) :
      Walks program (.klass klass) (hop :: rest) last

/-- Where a path starts: at the classifier at hand or at one with the name that is written. -/
def StartsAt (program : Program) (this : ClassifierIndex) : Origin → ClassifierIndex → Prop
  | .this, start => start = this
  | .type name, start => (program.classifier start).name = name.name

/-- A path that leads to a property. -/
structure PathTyped (program : Program) (this : ClassifierIndex) (path : MemberPath)
    (start last : ClassifierIndex) (property : PropertyIndex) : Prop where
  classifier : path.classifier = .resolved start
  holds : program.HoldsClassifier start
  starts : program.StartsAt this path.origin start
  walks : program.Walks start path.hops last
  reaches : path.property = .resolved property
  held : program.properties.Holds property
  found : program.findProperty last path.member.name = .resolved property

/-- A path that leads from the classifier at hand to a property. -/
def ThisPathTyped (program : Program) (this : ClassifierIndex) (path : MemberPath) : Prop :=
  path.origin = .this ∧ ∃ last property, program.PathTyped this path this last property

/-- An operand whose names mean something. -/
def ValueTyped (program : Program) (this : ClassifierIndex) (parameters : List ParameterIndex) :
    Value → Prop
  | .member path => ∃ start last property, program.PathTyped this path start last property
  | .variable name found => ∃ parameter ∈ parameters, found = .resolved parameter ∧
      program.parameters.Holds parameter ∧
      (program.parameters.get parameter).name.name = name.name
  | .literal _ _ | .literals _ _ | .user _ => True

/-- Criteria whose names mean something. -/
def CriteriaTyped (program : Program) (this : ClassifierIndex) (parameters : List ParameterIndex) :
    Criteria → Prop
  | .all _ => True
  | .and left right | .or left right =>
    program.CriteriaTyped this parameters left ∧ program.CriteriaTyped this parameters right
  | .operator source _ target _ =>
    program.ValueTyped this parameters source ∧ program.ValueTyped this parameters target
  | .edgePoint path _ => program.ThisPathTyped this path

/-- An ordering by properties of the classifier itself. -/
def OrderByTyped (program : Program) (this : ClassifierIndex) (ordering : OrderBy) : Prop :=
  ∀ member ∈ ordering.members, member.path.hops = [] ∧ program.ThisPathTyped this member.path

/-- A reference that a classifier has. -/
def ReferenceTyped (program : Program) (current : ClassifierIndex) (name : String) :
    Reference → Prop
  | .associationEnd associationEnd => program.associationEnds.Holds associationEnd ∧
      program.endName associationEnd = name ∧ ∃ klass owner, current = .klass klass ∧
        (program.associationEnds.get associationEnd).owner = some owner ∧
        program.isSubclassOf klass owner
  | .signature signature => program.endSignatures.Holds signature ∧
      program.signatureName signature = name ∧
        (program.endSignatures.get signature).owner = current

/-- A reference and what it leads to. -/
structure LeadsTo (program : Program) (current : ClassifierIndex) (name : String)
    (found : Resolution Reference) (reference : Reference) (target : ClassifierIndex) : Prop where
  found : found = .resolved reference
  typed : program.ReferenceTyped current name reference
  leads : program.referenceTarget reference = .resolved target
  holds : program.HoldsClassifier target

theorem LeadsTo.onward {program : Program} {current target : ClassifierIndex} {name : String}
    {found : Resolution Reference} {reference : Reference}
    (leads : program.LeadsTo current name found reference target) :
    found.andThen program.referenceTarget = .resolved target := by
  rw [leads.found]
  exact leads.leads

mutual

def ElementTyped (program : Program) (current : ClassifierIndex) : ProjectionElement → Prop
  | .property name _ found => ∃ property, found = .resolved property ∧
      program.properties.Holds property ∧
      program.findProperty current name.name = .resolved property
  | .reference name found children => ∃ reference target,
      program.LeadsTo current name.name found reference target ∧
      ElementsTyped program target children
  | .projection name found projectionName projection => ∃ reference target index projected,
      program.LeadsTo current name.name found reference target ∧
      projection = .resolved index ∧ program.projections.Holds index ∧
      program.nameOf (.projection index) = projectionName.name ∧
      (program.projections.get index).classifier = some (.resolved projected) ∧
      program.conforms target projected

/-- Elements of a projection on a classifier. -/
def ElementsTyped (program : Program) (current : ClassifierIndex) :
    List ProjectionElement → Prop
  | [] => True
  | element :: rest => ElementTyped program current element ∧ ElementsTyped program current rest

end

/-- What lookups along paths rely on. -/
structure Navigable (registry : Registry) (program : Program) : Prop where
  coherent : program.Coherent none none
  names : registry.Names program
  endsListed : program.EndsListed
  named : program.NamedApart
  members : ∀ classifier, program.MembersApart classifier
  endTargets : ∀ associationEnd, program.associationEnds.Holds associationEnd →
    ∃ target, (program.associationEnds.get associationEnd).target = .resolved target ∧
      program.classes.Holds target
  signatureTargets : ∀ signature, program.endSignatures.Holds signature →
    ∃ target, (program.endSignatures.get signature).target = some (.resolved target) ∧
      program.HoldsClassifier target

/-- Every projection is on a classifier. -/
def ProjectionsPlaced (program : Program) : Prop :=
  ∀ index, program.projections.Holds index → ∃ classifier,
    (program.projections.get index).classifier = some (.resolved classifier)

namespace Navigable

variable {registry : Registry} {program : Program} (navigable : program.Navigable registry)
include navigable

section Paths

variable {start : ClassifierIndex} {unit : UnitId}

theorem holds_of_findProperty {classifier : ClassifierIndex} {name : String}
    {property : PropertyIndex} (found : program.findProperty classifier name = .resolved property) :
    program.properties.Holds property :=
  navigable.coherent.holds_of_mem_allProperties
    (List.mem_of_find?_eq_some (find?_allProperties_of_findProperty found))

/-- Steps are found until one is reported. -/
theorem walks_followHops {otherwise : List Finding} {names : List Syntax.Identifier}
    (holds : program.HoldsClassifier start)
    (quiet : Quiet (Rules.brokenHop unit otherwise
      (program.followHops (.resolved start) names).1)) :
    ∃ last, program.Walks start (program.followHops (.resolved start) names).1 last ∧
      (program.followHops (.resolved start) names).2 = .resolved last ∧
      program.HoldsClassifier last ∧ Quiet otherwise := by
  induction names generalizing start with
  | nil => exact ⟨start, .here start, rfl, holds, quiet⟩
  | cons name rest ih =>
    simp only [followHops, Resolution.andThen_resolved, Rules.brokenHop] at quiet ⊢
    cases found : program.findHop name.name start with
    | ambiguous =>
      exact absurd found (findHop_ne_ambiguous (navigable.members start).ends name.name)
    | notFound => simp [found, Problem.kind, ProblemKind.isWarning] at quiet
    | resolved associationEnd =>
      obtain ⟨held, called, klass, owner, rfl, owned, above⟩ :=
        navigable.endsListed.of_findHop found
      obtain ⟨target, leads, heldTarget⟩ := navigable.endTargets associationEnd held
      have onward : program.endTarget associationEnd = .resolved (.klass target) := by
        rw [endTarget, leads]
        rfl
      simp only [found, Resolution.andThen_resolved, onward] at quiet ⊢
      have next : program.HoldsClassifier (.klass target) := heldTarget
      obtain ⟨last, walks, result⟩ := ih next quiet
      exact ⟨last, .step rfl held called owned above leads walks, result⟩

/-- A path is well typed when the rules report nothing. -/
theorem pathTyped_resolvePath {this : ClassifierIndex} {origin : Origin}
    {hops : List Syntax.Identifier} {member : Syntax.Identifier} {span : Span}
    (holds : program.HoldsClassifier start) (starts : program.StartsAt this origin start)
    (quiet : Quiet (Rules.memberPath
      (program.resolvePath origin (.resolved start) hops member unit span))) :
    ∃ last property, program.PathTyped this
      (program.resolvePath origin (.resolved start) hops member unit span) start last property := by
  obtain ⟨last, walks, arrives, -, quietMember⟩ := navigable.walks_followHops holds quiet
  have property : (program.resolvePath origin (.resolved start) hops member unit span).property =
      program.findProperty last member.name := by
    change (program.followHops (.resolved start) hops).2.andThen _ = _
    rw [arrives]
    rfl
  rw [Rules.brokenMember, property] at quietMember
  cases found : program.findProperty last member.name with
  | ambiguous =>
    exact absurd found (findProperty_ne_ambiguous (navigable.members last).properties member.name)
  | notFound =>
    rw [found] at quietMember
    cases origin <;>
      simp [Resolution.isNotFound, resolvePath, Problem.kind, ProblemKind.isWarning] at quietMember
  | resolved index =>
    exact ⟨last, index, rfl, holds, starts, walks, property.trans found,
      navigable.holds_of_findProperty found, found⟩

theorem pathTyped_resolveThisPath {path : Syntax.ThisPath} (holds : program.HoldsClassifier start)
    (quiet : Quiet (Rules.memberPath (program.resolveThisPath (.resolved start) unit path))) :
    ∃ last property, program.PathTyped start
      (program.resolveThisPath (.resolved start) unit path) start last property :=
  navigable.pathTyped_resolvePath holds rfl quiet

theorem pathTyped_resolveTypePath {path : Syntax.TypePath} (this : ClassifierIndex)
    (quiet : Quiet (Rules.memberPath (program.resolveTypePath registry unit path))) :
    ∃ start last property, program.PathTyped this
      (program.resolveTypePath registry unit path) start last property := by
  unfold resolveTypePath at quiet ⊢
  cases found : registry.findClassifier path.classifier.name with
  | ambiguous =>
    exact absurd found (navigable.names.findClassifier_ne_ambiguous navigable.named _)
  | notFound =>
    simp [found, Rules.memberPath, resolvePath, Problem.kind, ProblemKind.isWarning] at quiet
  | resolved start =>
    obtain ⟨holds, called⟩ := navigable.names.of_findClassifier found
    have starts : program.StartsAt this (.type path.classifier) start := called
    rw [found] at quiet
    obtain ⟨last, property, typed⟩ := navigable.pathTyped_resolvePath holds starts quiet
    exact ⟨start, last, property, typed⟩

end Paths

section Criteria

variable {start : ClassifierIndex} {unit : UnitId} {parameters : List ParameterIndex}

/-- An operand is well typed when its path is and its variable is found. -/
theorem valueTyped_resolveValue (holds : program.HoldsClassifier start)
    (held : ∀ parameter ∈ parameters, program.parameters.Holds parameter)
    (apart : (parameters.map fun parameter => (program.parameters.get parameter).name.name).Nodup)
    {value : Syntax.Value}
    (paths : ∀ path ∈
      (program.resolveValue registry ⟨.resolved start, unit, parameters⟩ value).path?,
        Quiet (Rules.memberPath path))
    (uses : ∀ use ∈
      (program.resolveValue registry ⟨.resolved start, unit, parameters⟩ value).parameterUse?,
        use.2 ≠ .notFound) :
    program.ValueTyped start parameters
      (program.resolveValue registry ⟨.resolved start, unit, parameters⟩ value) := by
  cases value with
  | thisMember path =>
    obtain ⟨last, property, typed⟩ := navigable.pathTyped_resolveThisPath holds (paths _ rfl)
    exact ⟨start, last, property, typed⟩
  | typeMember path => exact navigable.pathTyped_resolveTypePath start (paths _ rfl)
  | «variable» node name =>
    obtain ⟨parameter, found⟩ := Resolution.exists_resolved (uses _ rfl)
      (ofMatches_filter_ne_ambiguous apart name.name)
    have only := Resolution.ofMatches_eq_resolved.mp found
    obtain ⟨member, called⟩ := List.mem_filter.mp
      (only ▸ List.mem_singleton_self parameter : parameter ∈ parameters.filter fun parameter =>
        (program.parameters.get parameter).name.name = name.name)
    exact ⟨parameter, member, found, held parameter member, of_decide_eq_true called⟩
  | literal _ | literalList _ _ | user _ => trivial

/-- Criteria are well typed when their paths are and their variables are found. -/
theorem criteriaTyped_resolveCriteria (holds : program.HoldsClassifier start)
    (held : ∀ parameter ∈ parameters, program.parameters.Holds parameter)
    (apart : (parameters.map fun parameter => (program.parameters.get parameter).name.name).Nodup)
    {criteria : Syntax.Criteria}
    (paths : ∀ path ∈
      (program.resolveCriteria registry ⟨.resolved start, unit, parameters⟩ criteria).memberPaths,
        Quiet (Rules.memberPath path))
    (uses : ∀ use ∈
      (program.resolveCriteria registry ⟨.resolved start, unit, parameters⟩ criteria).parameterUses,
        use.2 ≠ .notFound) :
    program.CriteriaTyped start parameters
      (program.resolveCriteria registry ⟨.resolved start, unit, parameters⟩ criteria) := by
  induction criteria with
  | all _ => trivial
  | and _ left right leftTyped rightTyped | or _ left right leftTyped rightTyped =>
    simp only [resolveCriteria, Criteria.memberPaths_and, Criteria.memberPaths_or,
      Criteria.parameterUses_and, Criteria.parameterUses_or, List.mem_append, or_imp,
      forall_and] at paths uses
    exact ⟨leftTyped paths.1 uses.1, rightTyped paths.2 uses.2⟩
  | operator _ source _ target =>
    simp only [resolveCriteria, Criteria.memberPaths, Criteria.expressions, Criteria.ownPaths,
      Criteria.parameterUses, Criteria.ownParameterUses, List.flatMap_cons, List.flatMap_nil,
      List.append_nil, List.mem_filterMap, List.mem_cons, List.not_mem_nil, or_false] at paths uses
    constructor
    · exact navigable.valueTyped_resolveValue holds held apart
        (fun path isPath => paths path ⟨_, .inl rfl, isPath⟩)
        (fun use isUse => uses use ⟨_, .inl rfl, isUse⟩)
    · exact navigable.valueTyped_resolveValue holds held apart
        (fun path isPath => paths path ⟨_, .inr rfl, isPath⟩)
        (fun use isUse => uses use ⟨_, .inr rfl, isUse⟩)
  | edgePoint _ path =>
    obtain ⟨last, property, typed⟩ := navigable.pathTyped_resolveThisPath holds
      (paths _ (List.mem_singleton_self _))
    exact ⟨rfl, last, property, typed⟩

/-- The rules for criteria report every name that was not found. -/
theorem criteriaTyped_of_quiet (holds : program.HoldsClassifier start)
    (held : ∀ parameter ∈ parameters, program.parameters.Holds parameter)
    (apart : (parameters.map fun parameter => (program.parameters.get parameter).name.name).Nodup)
    {criteria : Syntax.Criteria} {reported : UnitId}
    (quiet : Quiet (Rules.criteriaRules reported
      (program.resolveCriteria registry ⟨.resolved start, unit, parameters⟩ criteria))) :
    program.CriteriaTyped start parameters
      (program.resolveCriteria registry ⟨.resolved start, unit, parameters⟩ criteria) := by
  simp only [Rules.criteriaRules, Quiet.append, Quiet.flatMap] at quiet
  obtain ⟨⟨paths, uses⟩, -⟩ := quiet
  apply navigable.criteriaTyped_resolveCriteria holds held apart paths
  intro use member missing
  have none := uses.map_eq_nil fun _ => rfl
  rw [List.filter_eq_nil_iff] at none
  exact none use member (Resolution.isNotFound_iff.mpr missing)

/-- The rules for orderings report every name that was not found and every step. -/
theorem orderByTyped_of_quiet (holds : program.HoldsClassifier start) {ordering : Syntax.OrderBy}
    (quiet : Quiet (Rules.orderByRules (program.resolveOrderBy (.resolved start) unit ordering))) :
    program.OrderByTyped start (program.resolveOrderBy (.resolved start) unit ordering) := by
  rw [Rules.orderByRules, Quiet.flatMap] at quiet
  intro member isMember
  have rule := quiet member isMember
  obtain ⟨written, -, rfl⟩ := List.mem_map.mp isMember
  split at rule
  · next direct =>
    obtain ⟨last, property, typed⟩ := navigable.pathTyped_resolveThisPath holds rule
    exact ⟨direct, rfl, last, property, typed⟩
  · simp [Problem.kind, ProblemKind.isWarning] at rule

end Criteria

section Projections

/-- A reference is found when the rules report nothing, and then it leads somewhere. -/
theorem leadsTo_of_quiet {current : ClassifierIndex} {name : Syntax.Identifier} {unit : UnitId}
    {owner : String}
    (quiet : Quiet (Rules.reference unit owner name (program.findReference name.name current))) :
    ∃ reference target, program.LeadsTo current name.name
      (program.findReference name.name current) reference target := by
  cases found : program.findReference name.name current with
  | ambiguous | notFound =>
    simp [found, Rules.reference, Problem.kind, ProblemKind.isWarning] at quiet
  | resolved reference =>
    rcases findReference_eq_resolved found with ⟨associationEnd, rfl, hop⟩ |
      ⟨signature, rfl, declared, called⟩
    · obtain ⟨holds, called, klass, owner, same, owned, above⟩ :=
        navigable.endsListed.of_findHop hop
      obtain ⟨target, leads, heldTarget⟩ := navigable.endTargets associationEnd holds
      refine ⟨_, .klass target, rfl, ⟨holds, called, klass, owner, same, owned, above⟩, ?_,
        heldTarget⟩
      rw [referenceTarget, endTarget, leads]
      rfl
    · obtain ⟨holds, owned⟩ := navigable.coherent.of_mem_endSignatures declared
      obtain ⟨target, leads, heldTarget⟩ := navigable.signatureTargets signature holds
      refine ⟨_, target, rfl, ⟨holds, called, owned⟩, ?_, heldTarget⟩
      rw [referenceTarget, leads]
      rfl

omit navigable

mutual

/-- An element is well typed when the rules report nothing. -/
theorem elementTyped_of_quiet (navigable : program.Navigable registry)
    (placed : program.ProjectionsPlaced) {unit : UnitId}
    (current : ClassifierIndex) (owner : String) (element : Syntax.ProjectionElement)
    (quiet : Quiet (Rules.projectionElement program unit owner
      (program.resolveElement registry (.resolved current) element))) :
    program.ElementTyped current (program.resolveElement registry (.resolved current) element) := by
  cases element with
  | property _ name header =>
    simp only [resolveElement, Resolution.andThen_resolved, Rules.projectionElement,
      Resolution.isNotFound_iff] at quiet ⊢
    have found : program.findProperty current name.name ≠ .notFound := by
      intro missing
      simp [missing, Problem.kind, ProblemKind.isWarning] at quiet
    obtain ⟨property, resolved⟩ := Resolution.exists_resolved found
      (findProperty_ne_ambiguous (navigable.members current).properties name.name)
    exact ⟨property, resolved, navigable.holds_of_findProperty resolved, resolved⟩
  | reference _ name children =>
    simp only [resolveElement, Resolution.andThen_resolved, Rules.projectionElement,
      Quiet.append] at quiet ⊢
    obtain ⟨reference, target, leads⟩ := navigable.leadsTo_of_quiet quiet.1
    rw [leads.onward] at quiet ⊢
    exact ⟨reference, target, leads,
      navigable.elementsTyped_of_quiet placed target _ children quiet.2⟩
  | projection _ name projection =>
    simp only [resolveElement, Resolution.andThen_resolved, Rules.projectionElement,
      Quiet.append] at quiet ⊢
    obtain ⟨reference, target, leads⟩ := navigable.leadsTo_of_quiet quiet.1
    have fits := quiet.2
    rw [leads.onward] at fits
    cases found : registry.projections.find projection.name with
    | ambiguous =>
      exact absurd found (navigable.names.projections_ne_ambiguous navigable.named _)
    | notFound =>
      simp [found, Rules.nestedProjection, Problem.kind, ProblemKind.isWarning] at fits
    | resolved index =>
      obtain ⟨holds, called⟩ := navigable.names.projections.of_find found
      obtain ⟨projected, isOn⟩ := placed index holds
      simp only [found, Rules.nestedProjection, isOn] at fits
      refine ⟨reference, target, index, projected, leads, rfl, holds, called, isOn, ?_⟩
      by_contra apart
      simp [apart, Problem.kind, ProblemKind.isWarning] at fits

/-- The elements of a projection are well typed when the rules report nothing. -/
theorem elementsTyped_of_quiet (navigable : program.Navigable registry)
    (placed : program.ProjectionsPlaced) {unit : UnitId}
    (current : ClassifierIndex) (owner : String) (elements : List Syntax.ProjectionElement)
    (quiet : Quiet (Rules.projectionElements program unit owner
      (program.resolveElements registry (.resolved current) elements))) :
    program.ElementsTyped current
      (program.resolveElements registry (.resolved current) elements) := by
  cases elements with
  | nil => trivial
  | cons element rest =>
    simp only [resolveElements, Rules.projectionElements, Quiet.append] at quiet
    exact ⟨navigable.elementTyped_of_quiet placed current owner element quiet.1,
      navigable.elementsTyped_of_quiet placed current owner rest quiet.2⟩

end

end Projections

end Navigable
end Program
end DomainLang
