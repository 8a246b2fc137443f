import DomainLang.Proofs.Inference.Missing

/-!
# What is inferred breaks no rule

An inferred property is one of six, and an inferred clause has one of two shapes. So the rules
that look at a property or at a clause alone can be checked once and for all. Of what is
inferred only the name of a property can clash with a member that is written, and only the
names in a clause can be unknown.
-/

namespace DomainLang

open Resolved

namespace Temporal

/-- The modifier of an inferred property besides its family. -/
def mark : TemporalPart → Modifier
  | .range => .privateAccess
  | .fromInstant => .fromInstant
  | .toInstant => .toInstant

/-- The type of an inferred property. -/
def typeOf : TemporalPart → Primitive
  | .range => .temporalRange
  | .fromInstant | .toInstant => .temporalInstant

/-- A property is the inferred one for a part of a family, wherever it stands. -/
structure Infers (family : Modifier) (part : TemporalPart) (property : Property) : Prop where
  known : family ∈ [Modifier.valid, .system]
  name : property.name.name = (propertyFor family part).name.name
  type : property.declaration.type = .primitive (typeOf part)
  modifiers : property.declaration.modifiers.map (·.modifier) = [family, mark part]
  validations : property.declaration.validations = []

theorem infers_of_stripped {family : Modifier} {part : TemporalPart} {property : Property}
    (known : family ∈ [Modifier.valid, .system])
    (same : property.declaration.stripped = propertyFor family part) :
    Infers family part property where
  known := known
  name := by
    have name := congrArg (fun declaration => declaration.name.name) same
    exact name
  type := by
    have type := congrArg Syntax.Property.type same
    cases written : property.declaration.type <;> cases part <;>
      simp_all [Syntax.Property.stripped, Syntax.PropertyType.stripped, propertyFor,
        Syntax.Property.bare, typeOf]
  modifiers := by
    have marks := congrArg (fun declaration => declaration.modifiers.map (·.modifier)) same
    simp only [Syntax.Property.stripped, List.map_map] at marks
    refine marks.trans ?_
    cases part <;> rfl
  validations := by
    have bounds := congrArg Syntax.Property.validations same
    cases part <;> simpa [Syntax.Property.stripped, propertyFor, Syntax.Property.bare] using bounds

namespace Infers

variable {family : Modifier} {part : TemporalPart} {property : Property}
  (infers : Infers family part property)
include infers

theorem has_iff (modifier : Modifier) :
    property.has modifier = (modifier = family || modifier = mark part) := by
  have has : property.has modifier =
      (property.declaration.modifiers.map (·.modifier)).any (· = modifier) := by
    rw [Property.has, hasModifier, List.any_map]
    rfl
  rw [has, infers.modifiers]
  simp [eq_comm]

/-- The name of an inferred property can name a member. -/
theorem isMemberName : Naming.isMemberName property.name.name = true := by
  have known := infers.known
  rw [infers.name]
  simp only [List.mem_cons, List.not_mem_nil, or_false] at known
  rcases known with rfl | rfl <;> cases part <;> decide

theorem temporalFamily?_eq : property.temporalFamily? = some family := by
  have known := infers.known
  simp only [List.mem_cons, List.not_mem_nil, or_false] at known
  rcases known with rfl | rfl <;> cases part <;>
    simp [Property.temporalFamily?, infers.has_iff, mark]

theorem temporalPart?_eq : property.temporalPart? = some part := by
  have known := infers.known
  simp only [List.mem_cons, List.not_mem_nil, or_false] at known
  rcases known with rfl | rfl <;> cases part <;>
    simp [Property.temporalPart?, infers.temporalFamily?_eq, infers.has_iff, mark]

theorem hasType_iff (types : List Primitive) : property.hasType types = (typeOf part ∈ types) := by
  simp [Property.hasType, infers.type, Syntax.PropertyType.primitive?]

/-- The rules for temporal properties are kept. -/
theorem temporal_eq_nil : Rules.temporal property = [] := by
  have known := infers.known
  simp only [List.mem_cons, List.not_mem_nil, or_false] at known
  rcases known with rfl | rfl <;> cases part <;>
    simp [Rules.temporal, Rules.PropertyRule.findingIf, infers.has_iff, infers.hasType_iff,
      infers.temporalFamily?_eq, infers.temporalPart?_eq, mark, typeOf]

/-- An inferred property is marked only as part of its family. -/
theorem has_eq_false (modifier : Modifier)
    (other : modifier ∉ [Modifier.valid, .system, .privateAccess, .fromInstant, .toInstant]) :
    property.has modifier = false := by
  have known := infers.known
  simp only [List.mem_cons, List.not_mem_nil, or_false, not_or] at known other
  rcases known with rfl | rfl <;> cases part <;> simp [infers.has_iff, mark, other]

/-- The rules for audit, version and user id properties do not apply. -/
theorem audit_eq_nil : Rules.audit property = [] := by
  have none : (property.declaration.modifiers.map (·.modifier)).filter Modifier.isAudit = [] := by
    have known := infers.known
    rw [infers.modifiers]
    simp only [List.mem_cons, List.not_mem_nil, or_false] at known
    rcases known with rfl | rfl <;> cases part <;> rfl
  simp only [Rules.audit, none]

theorem versionAndUserId_eq_nil : Rules.versionAndUserId property = [] := by
  have version := infers.has_eq_false .version (by decide)
  have userId := infers.has_eq_false .userId (by decide)
  simp [Rules.versionAndUserId, Rules.PropertyRule.findingIf, version, userId]

/-- Nothing is written twice on an inferred property. -/
theorem property_eq_nil : Uniqueness.property property = [] := by
  have distinct : (property.declaration.modifiers.map (·.modifier)).Nodup := by
    have known := infers.known
    rw [infers.modifiers]
    simp only [List.mem_cons, List.not_mem_nil, or_false] at known
    rcases known with rfl | rfl <;> cases part <;> decide
  rw [Uniqueness.property, Uniqueness.modifiers, repeated_eq_nil_iff.mpr distinct,
    infers.validations]
  rfl

end Infers
end Temporal

/-- An inferred property breaks none of the rules for properties. -/
theorem Rules.propertyRules_eq_nil {workspace : Workspace} {index : PropertyIndex}
    {family : Modifier} {part : TemporalPart}
    (infers : Temporal.Infers family part (workspace.program.properties.get index)) :
    Rules.propertyRules workspace index = [] := by
  have bookkeeping : (workspace.program.properties.get index).isBookkeeping = true := by
    simp [Property.isBookkeeping, infers.temporalFamily?_eq]
  simp [Rules.propertyRules, infers.temporal_eq_nil, infers.audit_eq_nil,
    infers.versionAndUserId_eq_nil, Rules.unreferenced, Rules.PropertyRule.findingIf, bookkeeping]

namespace Service

/-- Criteria compare a member of the object at hand with the version parameter. -/
def ComparesVersion (criteria : Syntax.Criteria) : Prop :=
  ∃ node path mark variableNode name,
    criteria = .operator node (.thisMember path) mark (.variable variableNode name) ∧
      mark.kind = .equal ∧ name.name = versionParameter

/-- The shapes of the criteria of an inferred clause. -/
def IsVersionCriteria (criteria : Syntax.Criteria) : Prop :=
  ComparesVersion criteria ∨ ∃ node edgeNode path right,
    criteria = .and node (.edgePoint edgeNode path) right ∧ ComparesVersion right

theorem comparesVersion_of_stripped {criteria : Syntax.Criteria} {path : String}
    (same : criteria.stripped = .equal (.this path) (.named versionParameter)) :
    ComparesVersion criteria := by
  cases criteria with
  | operator node source mark target =>
    simp only [Syntax.Criteria.stripped, Syntax.Criteria.equal, Syntax.Criteria.compare,
      Syntax.Criteria.operator.injEq, true_and] at same
    obtain ⟨ofSource, ofMark, ofTarget⟩ := same
    have kind := congrArg Syntax.OperatorMark.kind ofMark
    cases source with
    | thisMember member =>
      cases target with
      | «variable» variableNode name =>
        simp only [Syntax.Value.stripped, Syntax.Value.named, Syntax.Value.variable.injEq,
          true_and] at ofTarget
        exact ⟨node, member, mark, variableNode, name, rfl, kind,
          congrArg Syntax.Identifier.name ofTarget⟩
      | _ => simp [Syntax.Value.stripped, Syntax.Value.named] at ofTarget
    | _ => simp [Syntax.Value.stripped, Syntax.Value.this] at ofSource
  | _ => simp [Syntax.Criteria.stripped, Syntax.Criteria.equal, Syntax.Criteria.compare] at same

/-- An inferred clause goes with its verb and has criteria of one of the two shapes. -/
theorem isVersionCriteria_of_stripped {verb : Verb} {versionEnd : String} {clause : Syntax.Clause}
    (made : versionClause verb versionEnd = some clause.stripped) :
    clause.kind ∈ verb.allowedClauses ∧ IsVersionCriteria clause.criteria := by
  have shape {kind : ClauseKind} {criteria : Syntax.Criteria}
      (same : some (Syntax.Clause.bare kind criteria) = some clause.stripped) :
      clause.kind = kind ∧ clause.criteria.stripped = criteria := by
    have stripped := (Option.some.inj same).symm
    exact ⟨congrArg Syntax.Clause.kind stripped, congrArg Syntax.Clause.criteria stripped⟩
  cases verb with
  | get =>
    obtain ⟨kind, criteria⟩ := shape made
    refine ⟨by rw [kind]; decide, .inr ?_⟩
    cases written : clause.criteria with
    | and node left right =>
      simp only [written, Syntax.Criteria.stripped, Syntax.Criteria.both,
        Syntax.Criteria.and.injEq, true_and] at criteria
      cases left with
      | edgePoint edgeNode path =>
        exact ⟨node, edgeNode, path, right, rfl, comparesVersion_of_stripped criteria.2⟩
      | _ => simp [Syntax.Criteria.stripped, Syntax.Criteria.atEdge] at criteria
    | _ => simp [written, Syntax.Criteria.stripped, Syntax.Criteria.both] at criteria
  | put | patch | delete =>
    obtain ⟨kind, criteria⟩ := shape made
    exact ⟨by rw [kind]; decide, .inl (comparesVersion_of_stripped criteria)⟩
  | post => cases made

section Resolved

variable {registry : Registry} {program : Program} {scope : Scope} {criteria : Syntax.Criteria}

/-- All paths of an inferred clause start at the object at hand. -/
theorem IsVersionCriteria.origin_eq (shape : IsVersionCriteria criteria) {path : MemberPath}
    (member : path ∈ (program.resolveCriteria registry scope criteria).memberPaths) :
    path.origin = .this := by
  rcases shape with ⟨_, _, _, _, _, rfl, -, -⟩ | ⟨_, _, _, _, rfl, _, _, _, _, _, rfl, -, -⟩
  · simp only [Program.resolveCriteria, Program.resolveValue, Criteria.memberPaths,
      Criteria.expressions, Criteria.ownPaths, Value.path?, List.flatMap_cons, List.flatMap_nil,
      List.filterMap_cons, List.filterMap_nil, List.append_nil, List.mem_singleton] at member
    rw [member]
    rfl
  · simp only [Program.resolveCriteria, Program.resolveValue, Criteria.memberPaths,
      Criteria.expressions, Criteria.ownPaths, Value.path?, List.cons_append, List.nil_append,
      List.flatMap_cons, List.flatMap_nil, List.filterMap_cons, List.filterMap_nil,
      List.append_nil, List.mem_cons, List.not_mem_nil, or_false] at member
    rcases member with rfl | rfl <;> rfl

/-- The one variable of an inferred clause is there when the url takes a version. -/
theorem IsVersionCriteria.isNotFound_eq_false (shape : IsVersionCriteria criteria)
    (takes : scope.parameters.any fun parameter =>
      (program.parameters.get parameter).name.name = versionParameter)
    {use : Syntax.Identifier × Resolution ParameterIndex}
    (member : use ∈ (program.resolveCriteria registry scope criteria).parameterUses) :
    use.2.isNotFound = false := by
  have found : (Resolution.ofMatches (scope.parameters.filter fun parameter =>
      (program.parameters.get parameter).name.name = versionParameter)).isNotFound = false := by
    cases matching : scope.parameters.filter fun parameter =>
        (program.parameters.get parameter).name.name = versionParameter with
    | nil =>
      obtain ⟨parameter, among, named⟩ := List.any_eq_true.mp takes
      exact absurd named (List.filter_eq_nil_iff.mp matching parameter among)
    | cons first rest => cases rest <;> rfl
  rcases shape with ⟨_, _, _, _, _, rfl, -, named⟩ | ⟨_, _, _, _, rfl, _, _, _, _, _, rfl, -, named⟩
  all_goals
    simp only [Program.resolveCriteria, Program.resolveValue, Criteria.parameterUses,
      Criteria.expressions, Criteria.ownParameterUses, Value.parameterUse?, List.cons_append,
      List.nil_append, List.flatMap_cons, List.flatMap_nil, List.filterMap_cons,
      List.filterMap_nil, List.append_nil, List.mem_singleton] at member
    rw [member, named]
    exact found

/-- The one comparison of an inferred clause is not with a list. -/
theorem IsVersionCriteria.misusedOperator_eq_nil (shape : IsVersionCriteria criteria)
    (unit : UnitId) :
    (program.resolveCriteria registry scope criteria).expressions.flatMap
      (Rules.misusedOperator unit) = [] := by
  rcases shape with ⟨_, _, _, _, _, rfl, equal, -⟩ | ⟨_, _, _, _, rfl, _, _, _, _, _, rfl, equal, -⟩
  all_goals
    simp [Program.resolveCriteria, Program.resolveValue, Criteria.expressions,
      Rules.misusedOperator, Rules.isMisused, equal, Value.isList]

end Resolved
end Service

/-- A property breaks no rule for names, modifiers, validations, temporal, audit, version and
user id properties or references, whatever the other properties are. -/
structure Workspace.PropertyInOrder (workspace : Workspace) (index : PropertyIndex) : Prop where
  name : Naming.isMemberName (workspace.program.properties.get index).name.name = true
  details : Uniqueness.property (workspace.program.properties.get index) = []
  /-- The property is none of those of which a classifier may have only one. -/
  unmarked : ∀ modifier ∈ [Modifier.id, .createdBy, .lastUpdatedBy, .version],
    (workspace.program.properties.get index).has modifier = false
  rules : Rules.propertyRules workspace index = []

/-- A clause of a service goes with the verb, is the only one of its kind, knows its variables
and compares no list. -/
structure Resolved.Service.ClauseInOrder (service : Service) (clause : Clause) : Prop where
  allowed : clause.kind ∈ service.declaration.verb.allowedClauses
  single : service.clauses.filter (fun other => other.kind = clause.kind) = [clause]
  criteria : ∃ criteria, clause.criteria = some criteria ∧
    (∀ path ∈ criteria.memberPaths, path.origin = .this) ∧
    (∀ use ∈ criteria.parameterUses, use.2.isNotFound = false) ∧
    criteria.expressions.flatMap (Rules.misusedOperator clause.unit) = []

/-- Everything that was inferred is in order. -/
structure Workspace.Flawless (workspace : Workspace) : Prop where
  properties : ∀ index, workspace.program.properties.Holds index →
    (workspace.program.properties.get index).inferred.isSome → workspace.PropertyInOrder index
  clauses : ∀ index, workspace.program.services.Holds index →
    ∀ clause ∈ (workspace.program.services.get index).clauses, clause.inferred.isSome →
      (workspace.program.services.get index).ClauseInOrder clause

theorem Temporal.Infers.propertyInOrder {workspace : Workspace} {index : PropertyIndex}
    {family : Modifier} {part : TemporalPart}
    (infers : Infers family part (workspace.program.properties.get index)) :
    workspace.PropertyInOrder index where
  name := infers.isMemberName
  details := infers.property_eq_nil
  unmarked := by
    intro modifier among
    apply infers.has_eq_false
    simp only [List.mem_cons, List.not_mem_nil, or_false] at among
    rcases among with rfl | rfl | rfl | rfl <;> decide
  rules := Rules.propertyRules_eq_nil infers

/-- The inferred clause of a service is its missing clause. -/
theorem Resolved.Service.missingClause?_of_inferred {registry : Registry} {program : Program}
    {service : Service} {isWanted : Bool}
    (complete : service.inferredClauses =
      if isWanted then (DomainLang.Service.missingClause? registry program service.asWritten).toList
      else [])
    {clause : Clause} (member : clause ∈ service.clauses) (inferred : clause.inferred.isSome) :
    DomainLang.Service.missingClause? registry program service.asWritten =
        some clause.declaration.stripped ∧
      service.clauses.filter (fun other => other.inferred.isSome) = [clause] := by
  have among : clause ∈ service.clauses.filter fun other => other.inferred.isSome :=
    List.mem_filter.mpr ⟨member, inferred⟩
  have stripped : clause.declaration.stripped ∈ service.inferredClauses :=
    List.mem_map_of_mem (f := fun clause : Clause => clause.declaration.stripped) among
  rw [complete] at stripped
  split at stripped
  · next wanted =>
    have missing := Option.mem_toList.mp stripped
    refine ⟨missing, ?_⟩
    rw [if_pos wanted, missing, Option.toList_some, inferredClauses,
      List.map_eq_singleton_iff] at complete
    obtain ⟨only, single, -⟩ := complete
    rw [single, List.mem_singleton] at among
    rw [single, among]
  · cases stripped

/-- The missing clause is in order once it is there. -/
theorem Resolved.Service.clauseInOrder {registry : Registry} {program : Program}
    {service : Service} {clause : Clause}
    (missing : DomainLang.Service.missingClause? registry program service.asWritten =
      some clause.declaration.stripped)
    (only : service.clauses.filter (fun other => other.inferred.isSome) = [clause])
    (resolved : clause.criteria = some (program.resolveCriteria registry
      (program.clauseScope registry service clause) clause.declaration.criteria)) :
    service.ClauseInOrder clause := by
  obtain ⟨⟨versionEnd, made⟩, absent⟩ := DomainLang.Service.missingClause?_eq_some missing
  obtain ⟨allowed, shape⟩ := DomainLang.Service.isVersionCriteria_of_stripped made
  have takes := DomainLang.Service.takesVersion_of_missingClause? missing
  change (program.clauseScope registry service clause).parameters.any _ = true at takes
  refine ⟨allowed, ?_, _, resolved, fun path => shape.origin_eq, fun use member => ?_,
    shape.misusedOperator_eq_nil clause.unit⟩
  · -- A clause of the same kind was inferred too, for it would not be missing otherwise.
    have sameKind : ∀ other ∈ service.clauses,
        decide (other.kind = clause.kind) =
          (decide (other.kind = clause.kind) && other.inferred.isSome) := by
      intro other member
      cases written : other.inferred with
      | some _ => simp
      | none =>
        have different : other.kind ≠ clause.kind := by
          rw [hasClause, asWritten, List.any_eq_false] at absent
          have apart := absent other (List.mem_filter.mpr ⟨member, by simp [written]⟩)
          rw [decide_eq_true_eq] at apart
          exact apart
        simp [different]
    rw [List.filter_congr sameKind, ← List.filter_filter, only]
    simp
  · exact shape.isNotFound_eq_false takes member

end DomainLang
