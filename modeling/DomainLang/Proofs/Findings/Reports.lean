import DomainLang.Proofs.Places.References
import Mathlib.Data.List.Forall2

/-!
# What each rule reports

A rule about one record reports in the unit of the record, at spans of the record, and problems
of a few kinds: there is one lemma for every rule. So the findings of one kind are those of the
one or two groups of rules that report it, and what a report says about a kind can be read off
these groups alone. A rule that has one finding about each item that breaks it reports exactly
these items.
-/

namespace DomainLang

variable {first second : List Finding} {unit : UnitId}

/-- Where a rule has one finding about each item that breaks it and none about the others, its
findings belong to these items one by one. -/
theorem exists_reported {α β : Type} {items : List α} {rule : α → List β} {breaks : α → Prop}
    {reports : α → β → Prop}
    (each : ∀ item ∈ items, breaks item ∧
      (∃ finding, rule item = [finding] ∧ reports item finding) ∨
      ¬ breaks item ∧ rule item = []) :
    ∃ reported : List α, reported.Sublist items ∧
      (∀ item, item ∈ reported ↔ item ∈ items ∧ breaks item) ∧
      List.Forall₂ reports reported (items.flatMap rule) := by
  induction items with
  | nil => exact ⟨[], .slnil, by simp, .nil⟩
  | cons first rest ih =>
    obtain ⟨here, later⟩ := List.forall_mem_cons.mp each
    obtain ⟨reported, sublist, member, related⟩ := ih later
    rw [List.flatMap_cons]
    rcases here with ⟨broken, finding, found, isReport⟩ | ⟨kept, none⟩
    · refine ⟨first :: reported, sublist.cons_cons first, fun item => ?_, ?_⟩
      · rw [List.mem_cons, List.mem_cons, member]
        constructor
        · rintro (rfl | ⟨among, breaks⟩)
          · exact ⟨.inl rfl, broken⟩
          · exact ⟨.inr among, breaks⟩
        · rintro ⟨rfl | among, breaks⟩
          · exact .inl rfl
          · exact .inr ⟨among, breaks⟩
      · rw [found]
        exact .cons isReport related
    · refine ⟨reported, sublist.cons first, fun item => ?_, ?_⟩
      · rw [member, List.mem_cons]
        constructor
        · exact fun ⟨among, breaks⟩ => ⟨.inr among, breaks⟩
        · rintro ⟨rfl | among, breaks⟩
          · exact absurd breaks kept
          · exact ⟨among, breaks⟩
      · rw [none]
        exact related

/-- All findings are of the given kinds. -/
def OfKinds (kinds : List ProblemKind) (findings : List Finding) : Prop :=
  ∀ finding ∈ findings, finding.problem.kind ∈ kinds

namespace OfKinds

variable {kinds : List ProblemKind} {α : Type} {findings : List Finding}

@[simp]
theorem nil (kinds : List ProblemKind) : OfKinds kinds [] := by
  simp [OfKinds]

@[simp]
theorem cons {finding : Finding} {rest : List Finding} :
    OfKinds kinds (finding :: rest) ↔ finding.problem.kind ∈ kinds ∧ OfKinds kinds rest := by
  simp [OfKinds]

@[simp]
theorem append : OfKinds kinds (first ++ second) ↔ OfKinds kinds first ∧ OfKinds kinds second := by
  simp [OfKinds, or_imp, forall_and]

theorem flatMap {items : List α} {rule : α → List Finding}
    (each : ∀ item, OfKinds kinds (rule item)) : OfKinds kinds (items.flatMap rule) := by
  intro finding member
  obtain ⟨item, -, found⟩ := List.mem_flatMap.mp member
  exact each item finding found

theorem map {items : List α} {report : α → Finding}
    (each : ∀ item, kinds.contains (report item).problem.kind) :
    OfKinds kinds (items.map report) := by
  intro finding member
  obtain ⟨item, -, rfl⟩ := List.mem_map.mp member
  exact List.contains_iff_mem.mp (each item)

/-- A rule about an optional item reports nothing where there is none. -/
theorem elim {item : Option α} {rule : α → List Finding}
    (each : ∀ item, OfKinds kinds (rule item)) : OfKinds kinds (item.elim [] rule) := by
  cases item with
  | none => exact nil kinds
  | some item => exact each item

theorem ite {condition : Prop} [Decidable condition] (isFirst : OfKinds kinds first)
    (isSecond : OfKinds kinds second) : OfKinds kinds (if condition then first else second) := by
  split
  · exact isFirst
  · exact isSecond

theorem mono {more : List ProblemKind} (ofKinds : OfKinds kinds findings) (fewer : kinds ⊆ more) :
    OfKinds more findings :=
  fun finding member => fewer (ofKinds finding member)

/-- A group has no finding of any other kind. -/
theorem filter_eq_nil (ofKinds : OfKinds kinds findings) (kind : ProblemKind)
    (other : kind ∉ kinds) : findings.filter (·.problem.kind = kind) = [] := by
  rw [List.filter_eq_nil_iff]
  intro finding member same
  exact other (of_decide_eq_true same ▸ ofKinds finding member)

/-- Of a group that reports one kind only, everything is of that kind. -/
theorem filter_eq_self {kind : ProblemKind} (ofKind : OfKinds [kind] findings) :
    findings.filter (·.problem.kind = kind) = findings :=
  List.filter_eq_self.mpr fun finding member => by simpa using ofKind finding member

end OfKinds

/-- All findings are in the unit, at one of the spans and of one of the kinds. -/
def Reports (unit : UnitId) (spans : List Span) (kinds : List ProblemKind)
    (findings : List Finding) : Prop :=
  ∀ finding ∈ findings,
    finding.unit = unit ∧ finding.span ∈ spans ∧ finding.problem.kind ∈ kinds

namespace Reports

variable {spans : List Span} {kinds : List ProblemKind} {α : Type} {findings : List Finding}

@[simp]
theorem nil : Reports unit spans kinds [] := by
  simp [Reports]

/-- A single finding reports at its place. -/
theorem one {problem : Problem} {span : Span} (place : span ∈ spans)
    (kind : kinds.contains problem.kind) :
    Reports unit spans kinds [⟨problem, unit, span⟩] := by
  intro finding member
  rw [List.mem_singleton.mp member]
  exact ⟨rfl, place, List.contains_iff_mem.mp kind⟩

@[simp]
theorem append :
    Reports unit spans kinds (first ++ second) ↔
      Reports unit spans kinds first ∧ Reports unit spans kinds second := by
  simp only [Reports, List.forall_mem_append]

theorem ite {condition : Prop} [Decidable condition] (isFirst : Reports unit spans kinds first)
    (isSecond : Reports unit spans kinds second) :
    Reports unit spans kinds (if condition then first else second) := by
  split
  · exact isFirst
  · exact isSecond

/-- Repetitions are reported where the repeated items stand. -/
theorem repeated {κ : Type} [DecidableEq κ] {key : α → κ} {items : List α}
    {problem : α → Problem} {place : α → Span} (places : ∀ item ∈ items, place item ∈ spans)
    (ofKinds : ∀ item, kinds.contains (problem item).kind) :
    Reports unit spans kinds
      ((repeated key items).map fun item => ⟨problem item, unit, place item⟩) := by
  intro finding member
  obtain ⟨item, again, rfl⟩ := List.mem_map.mp member
  exact ⟨rfl, places item (List.mem_of_mem_filter again), List.contains_iff_mem.mp (ofKinds item)⟩

/-- What reports at some places reports at more of them. -/
theorem mono {more : List Span} {others : List ProblemKind}
    (reports : Reports unit spans kinds findings) (places : spans ⊆ more) (fewer : kinds ⊆ others) :
    Reports unit more others findings := by
  intro finding member
  obtain ⟨inUnit, place, kind⟩ := reports finding member
  exact ⟨inUnit, places place, fewer kind⟩

theorem widen {more : List Span} (reports : Reports unit spans kinds findings)
    (places : spans ⊆ more) : Reports unit more kinds findings :=
  reports.mono places (List.Subset.refl _)

/-- The kinds of a report, without its places. -/
theorem ofKinds (reports : Reports unit spans kinds findings) : OfKinds kinds findings :=
  fun finding member => (reports finding member).2.2

end Reports

namespace Uniqueness

/-- A repeated modifier is reported at one of the marks. -/
theorem reports_modifiers {owner : String} {marks : List Syntax.ModifierMark} :
    Reports unit (marks.flatMap Syntax.ModifierMark.spans) [.duplicateModifier]
      (modifiers unit owner marks) :=
  .repeated (fun _ member => List.mem_flatMap_of_mem member (List.mem_singleton_self _))
    fun _ => rfl

/-- A repeated interface is reported where it is named. -/
theorem reports_interfaces (classifier : Resolved.Classifier) :
    Reports classifier.header.unit
      (classifier.declaredInterfaces.flatMap Syntax.Identifier.spans) [.duplicateInterface]
      (interfaces classifier) :=
  .repeated (fun _ member => List.mem_flatMap_of_mem member (List.mem_singleton_self _))
    fun _ => rfl

/-- Repeated modifiers and validations are reported within the property. -/
theorem reports_property (record : Resolved.Property) :
    Reports record.context.unit record.declaration.spans
      [.duplicateModifier, .duplicateValidation] (property record) := by
  rw [property, Reports.append]
  constructor
  · refine reports_modifiers.mono (fun span => ?_) (by simp)
    simp only [Syntax.Property.spans, List.mem_append]
    tauto
  · refine .repeated (fun bound member => ?_) fun _ => rfl
    exact List.mem_append_right _ (List.mem_flatMap_of_mem member (List.mem_singleton_self _))

/-- Repeated literals are reported at literals. -/
theorem reports_literals (enumeration : Resolved.Enumeration) :
    Reports enumeration.header.unit
      (enumeration.literals.flatMap Syntax.EnumerationLiteral.spans) [.duplicateLiteral]
      (literals enumeration) := by
  rw [literals, List.map_append, Reports.append]
  constructor
  · refine .repeated (fun entry member => ?_) fun _ => rfl
    obtain ⟨literal, among, rfl⟩ := List.mem_map.mp member
    exact List.mem_flatMap_of_mem among
      (by simp [Syntax.EnumerationLiteral.spans, Syntax.Identifier.spans])
  · refine .repeated (fun entry member => ?_) fun _ => rfl
    obtain ⟨literal, among, found⟩ := List.mem_filterMap.mp member
    obtain ⟨pretty, -, rfl⟩ := Option.map_eq_some_iff.mp found
    exact List.mem_flatMap_of_mem among
      (by simp [Syntax.EnumerationLiteral.spans, Syntax.Node.spans])

mutual

/-- Elements that share a name stand in the unit of the projection. -/
theorem reports_elements (unit : UnitId) (owner : String)
    (children : List Resolved.ProjectionElement) :
    Reports unit (Resolved.ProjectionElement.allSpans children) [.duplicateProjectionMember]
      (elements unit owner children) := by
  rw [elements, Reports.append]
  refine ⟨.repeated (fun child member => ?_) fun _ => rfl,
    reports_nestedElements unit owner children⟩
  rw [Resolved.ProjectionElement.allSpans_eq]
  refine List.mem_flatMap_of_mem member ?_
  cases child <;> simp [Resolved.ProjectionElement.name, Resolved.ProjectionElement.spans,
    Syntax.Identifier.spans]
termination_by (sizeOf children, 1)

/-- Repeated elements of a projection are reported at elements, at every level. -/
theorem reports_nestedElements (unit : UnitId) (owner : String) :
    ∀ children : List Resolved.ProjectionElement,
      Reports unit (Resolved.ProjectionElement.allSpans children) [.duplicateProjectionMember]
        (nestedElements unit owner children)
  | [] => by simp [nestedElements]
  | .reference name found children :: rest => by
    rw [nestedElements, Reports.append]
    constructor
    · refine (reports_elements _ _ children).widen fun span => ?_
      simp only [Resolved.ProjectionElement.allSpans, Resolved.ProjectionElement.spans,
        List.mem_append]
      tauto
    · exact (reports_nestedElements unit owner rest).widen (List.subset_append_right ..)
  | .property .. :: rest => by
    rw [nestedElements]
    · exact (reports_nestedElements unit owner rest).widen (List.subset_append_right ..)
    · simp
  | .projection .. :: rest => by
    rw [nestedElements]
    · exact (reports_nestedElements unit owner rest).widen (List.subset_append_right ..)
    · simp
termination_by children => (sizeOf children, 0)

end

theorem ofKinds_classifier (program : Program) (index : ClassifierIndex) :
    OfKinds [.duplicateMember, .duplicateModifier, .duplicateInterface, .duplicateVersion]
      (classifier program index) := by
  simp only [classifier, OfKinds.append]
  refine ⟨⟨⟨⟨.map fun _ => rfl, reports_modifiers.ofKinds.mono (by simp)⟩,
    (reports_interfaces _).ofKinds.mono (by simp)⟩,
    .flatMap fun _ => .ite (.nil _) (.map fun _ => rfl)⟩, ?_⟩
  cases index with
  | interface _ => exact .nil _
  | klass klass => exact .flatMap fun _ => .map fun _ => rfl

theorem ofKinds_memberDetails (program : Program) :
    OfKinds [.duplicateModifier, .duplicateValidation] (memberDetails program) := by
  simp only [memberDetails, OfKinds.append]
  exact ⟨⟨.flatMap fun _ => (reports_property _).ofKinds,
    .flatMap fun _ => reports_modifiers.ofKinds.mono (by simp)⟩,
    .flatMap fun _ => reports_modifiers.ofKinds.mono (by simp)⟩

/-- The findings about uniqueness, each group with the kinds that it reports. -/
def groups (workspace : Workspace) : List (List ProblemKind × List Finding) :=
  let program := workspace.program
  [([.duplicateTopLevel], topLevelNames workspace), ([.duplicateUser], userClasses program),
    ([.duplicateMember, .duplicateModifier, .duplicateInterface, .duplicateVersion],
      program.classifiers.flatMap (classifier program)),
    ([.duplicateModifier, .duplicateValidation], memberDetails program),
    ([.duplicateLiteral], program.enumerations.records.flatMap literals),
    ([.duplicateServiceGroup], groupClasses workspace),
    ([.duplicateUrl, .duplicateParameter, .duplicateCriteria],
      program.serviceGroups.records.flatMap (group program)),
    ([.duplicateProjectionMember], program.projections.records.flatMap fun projection =>
      elements projection.header.unit projection.header.name.name projection.children)]

/-- Each group of rules about repetitions reports the kinds it is listed with. -/
theorem ofKinds_of_mem_groups (workspace : Workspace) :
    ∀ group ∈ groups workspace, OfKinds group.1 group.2 := by
  simp only [groups, List.forall_mem_cons]
  refine ⟨.map fun _ => rfl,
    .ite (.nil _) (.map fun _ => rfl), .flatMap (ofKinds_classifier _),
    ofKinds_memberDetails _, .flatMap fun _ => (reports_literals _).ofKinds,
    .map fun _ => rfl, .flatMap fun record => ?_,
    .flatMap fun _ => (reports_elements _ _ _).ofKinds, by simp⟩
  simp only [group, OfKinds.append]
  exact ⟨.map fun _ => rfl, .flatMap fun _ => OfKinds.append.mpr
    ⟨.map fun _ => rfl, .flatMap fun _ => .map fun _ => rfl⟩⟩

end Uniqueness

namespace Naming

def kinds : List ProblemKind :=
  [.packageName, .topLevelName, .memberName, .endName]

/-- The rules about names report on names only. -/
theorem ofKinds_findings (workspace : Workspace) : OfKinds kinds (findings workspace) := by
  simp only [findings, OfKinds.append]
  refine ⟨⟨⟨?_, ?_⟩, ?_⟩, ?_⟩
  · refine .flatMap fun unit => ?_
    cases unit.tree? with
    | none => exact .nil _
    | some tree => exact .ite (.nil _) (by simp [Problem.kind, kinds])
  all_goals exact .map fun _ => rfl

end Naming

namespace Rules

variable {name : Syntax.Identifier} {program : Program}

section Classes

def classKinds : List ProblemKind :=
  [.missingKey, .keysAndIds, .transientId, .versionAndVersioned]

/-- Apart from the ids of a transient class, a class is reported at its name. -/
theorem reports_keysAndVersions (program : Program) (klass : Resolved.Class)
    (properties : List Resolved.Property) :
    Reports klass.header.unit [klass.header.name.span] classKinds
      (missingKey klass properties ++ mixedKeys klass properties ++
        versionAndVersioned program klass) := by
  simp only [Reports.append]
  refine ⟨⟨?_, ?_⟩, ?_⟩
  · exact .ite (.one (by simp) rfl) .nil
  · exact .ite (.one (by simp) rfl) .nil
  · simp only [versionAndVersioned]
    split
    · exact .one (by simp) rfl
    · exact .nil

/-- The rules about classes report on keys and versions only. -/
theorem ofKinds_classes (program : Program) : OfKinds classKinds (classes program) := by
  refine .flatMap fun index => ?_
  have others := (reports_keysAndVersions program (program.classes.get index)
    ((program.allProperties (.klass index)).map program.properties.get)).ofKinds
  simp only [OfKinds.append] at others
  simp only [classRules, OfKinds.append]
  exact ⟨⟨others.1, .ite (.map fun _ => rfl) (.nil _)⟩, others.2⟩

end Classes

section Inheritance

def implementedKinds : List ProblemKind :=
  [.implementsNonInterface, .unresolvedType, .forwardReference, .redundantInterface]

theorem reports_unknownType {what : String} :
    Reports unit name.spans [.unresolvedType] [unknownType unit what name] :=
  .one (List.mem_singleton_self _) rfl

/-- A wrong interface is reported where the classifier names it. -/
theorem reports_implementedInterface {workspace : Workspace} {index : ClassifierIndex}
    {found : Resolution InterfaceIndex} :
    Reports (workspace.program.classifier index).header.unit name.spans implementedKinds
      (implementedInterface workspace index name found) := by
  have atName : name.span ∈ name.spans := List.mem_singleton_self _
  cases found with
  | ambiguous => exact .nil
  | notFound =>
    unfold implementedInterface
    dsimp only
    split
    · exact .one atName rfl
    all_goals exact reports_unknownType.mono (List.Subset.refl _) (by decide)
  | resolved interface =>
    rw [implementedInterface, Reports.append]
    exact ⟨.ite (.one atName rfl) .nil, .ite (.one atName rfl) .nil⟩

/-- An unknown enumeration is reported within the type. -/
theorem reports_unknownEnumeration {type : Syntax.PropertyType}
    {enumeration : Option (Resolution EnumerationIndex)} :
    Reports unit type.spans [.unresolvedType] (unknownEnumeration unit type enumeration) := by
  unfold unknownEnumeration
  split
  · exact reports_unknownType
  · exact .nil

theorem ofKinds_memberTypes (program : Program) :
    OfKinds [.unresolvedType] (memberTypes program) := by
  simp only [memberTypes, OfKinds.append]
  exact ⟨⟨⟨⟨.flatMap fun _ => reports_unknownEnumeration.ofKinds,
    .flatMap fun _ => reports_unknownEnumeration.ofKinds⟩,
    .flatMap fun _ => .ite reports_unknownType.ofKinds (.nil _)⟩,
    .flatMap fun _ => .ite reports_unknownType.ofKinds (.nil _)⟩,
    .flatMap fun _ => .ite reports_unknownType.ofKinds (.nil _)⟩

def ancestryKinds : List ProblemKind :=
  [.circularInheritance, .extendsNonClass, .unresolvedType]

/-- A cycle of interfaces is reported at the name of the classifier. -/
theorem reports_interfaceCycle (program : Program) (index : ClassifierIndex) :
    Reports (program.classifier index).header.unit [(program.classifier index).header.name.span]
      ancestryKinds (interfaceCycle program index) := by
  cases index with
  | klass _ => exact .nil
  | interface _ =>
    exact .ite (.one (List.mem_singleton_self _) rfl) .nil

/-- A wrong superclass is reported where the class names it. -/
theorem reports_superclass (workspace : Workspace) (index : ClassIndex) :
    Reports (workspace.program.classes.get index).header.unit
      ((workspace.program.classes.get index).declaredSuperclass.toList.flatMap
        Syntax.Identifier.spans)
      ancestryKinds (superclass workspace (.klass index)) := by
  simp only [superclass]
  split
  · next declared _ =>
    exact .ite (.one (by simp [declared, Syntax.Identifier.spans]) rfl) .nil
  · next declared _ =>
    rw [declared]
    split
    · exact .one (by simp [Syntax.Identifier.spans]) rfl
    all_goals exact reports_unknownType.mono (by simp) (by decide)
  · exact .nil

theorem ofKinds_superclass (workspace : Workspace) (index : ClassifierIndex) :
    OfKinds ancestryKinds (superclass workspace index) := by
  cases index with
  | interface _ => exact .nil _
  | klass index => exact (reports_superclass workspace index).ofKinds

theorem ofKinds_inheritance (workspace : Workspace) :
    OfKinds (implementedKinds ++ ancestryKinds) (inheritance workspace) := by
  simp only [inheritance, OfKinds.append]
  refine ⟨.flatMap fun index => ?_, (ofKinds_memberTypes _).mono (by decide)⟩
  simp only [inheritanceOf, OfKinds.append]
  have ancestry : ancestryKinds ⊆ implementedKinds ++ ancestryKinds := List.subset_append_right ..
  exact ⟨⟨.flatMap fun _ => reports_implementedInterface.ofKinds.mono
    (List.subset_append_left ..), (reports_interfaceCycle _ index).ofKinds.mono ancestry⟩,
    (ofKinds_superclass _ index).mono ancestry⟩

end Inheritance

section Properties

open PropertyRule

def propertyKinds : List ProblemKind :=
  [.temporalFromAndTo, .temporalEndpointFamily, .temporalInstantType, .temporalRangeType,
    .auditKey, .auditPrivate, .auditDataType, .auditUserId, .createdByName, .lastUpdatedByName,
    .versionDataType, .userIdDataType, .unreferencedPrivate]

/-- A finding at the name of a property is within the property. -/
theorem reports_atName {property : Resolved.Property} {kinds : List ProblemKind}
    {condition : Bool} {problem : Problem} (kind : kinds.contains problem.kind) :
    Reports property.context.unit property.declaration.spans kinds
      (findingIf condition (atName property problem)) :=
  .ite (.one (by simp [Resolved.Property.name, Syntax.Property.spans, Syntax.Identifier.spans])
    kind) .nil

/-- A finding at the type of a property is within the property. -/
theorem reports_atType {property : Resolved.Property} {kinds : List ProblemKind}
    {condition : Bool} {problem : Problem} (kind : kinds.contains problem.kind) :
    Reports property.context.unit property.declaration.spans kinds
      (findingIf condition (atType property problem)) :=
  .ite (.one (by simp [Syntax.Property.spans]) kind) .nil

/-- What the rules report apart from properties that nothing refers to. -/
theorem reports_form (property : Resolved.Property) :
    Reports property.context.unit property.declaration.spans
      (propertyKinds.erase .unreferencedPrivate)
      (temporal property ++ audit property ++ versionAndUserId property) := by
  simp only [Reports.append]
  refine ⟨⟨?_, ?_⟩, ?_⟩
  · simp only [temporal, Reports.append]
    exact ⟨⟨⟨reports_atName rfl, reports_atName rfl⟩, reports_atType rfl⟩, reports_atType rfl⟩
  · simp only [audit]
    split
    · exact .nil
    · simp only [Reports.append]
      exact ⟨⟨⟨⟨⟨reports_atName rfl, reports_atName rfl⟩, reports_atType rfl⟩, reports_atName rfl⟩,
        reports_atName rfl⟩, reports_atName rfl⟩
  · simp only [versionAndUserId, Reports.append]
    exact ⟨⟨reports_atType rfl, reports_atType rfl⟩, reports_atName rfl⟩

/-- The rules about a property report within it. -/
theorem reports_propertyRules (workspace : Workspace) (index : PropertyIndex) :
    Reports (workspace.program.properties.get index).context.unit
      (workspace.program.properties.get index).declaration.spans propertyKinds
      (propertyRules workspace index) := by
  rw [propertyRules, Reports.append]
  exact ⟨(reports_form _).mono (List.Subset.refl _) List.erase_subset,
    reports_atName rfl⟩

end Properties

section Criteria

def criteriaKinds : List ProblemKind :=
  [.unresolvedMemberType, .unresolvedHop, .unresolvedThisMember, .unresolvedTypeMember,
    .unresolvedVariable, .inOperator, .toOneOrderBy, .orderByHop, .foreignKeyMultiplicity,
    .optionalForeignKey]

/-- What can be wrong with a path depends on where it starts. -/
def pathKinds (path : Resolved.MemberPath) : List ProblemKind :=
  match path.origin with
  | .this => [.unresolvedThisMember, .unresolvedHop]
  | .type _ => [.unresolvedTypeMember, .unresolvedHop, .unresolvedMemberType]

/-- What can be wrong with a path can be wrong with a criteria. -/
theorem pathKinds_subset (path : Resolved.MemberPath) : pathKinds path ⊆ criteriaKinds := by
  unfold pathKinds
  split <;> decide

/-- The first hop that fails is reported at its name. -/
theorem reports_brokenHop {spans : List Span} {kinds : List ProblemKind}
    {otherwise : List Finding} (rest : Reports unit spans kinds otherwise)
    (hop : .unresolvedHop ∈ kinds) {hops : List Resolved.Hop}
    (places : hops.flatMap (fun hop => hop.name.spans) ⊆ spans) :
    Reports unit spans kinds (brokenHop unit otherwise hops) := by
  induction hops with
  | nil => exact rest
  | cons first hops ih =>
    rw [List.flatMap_cons, List.append_subset] at places
    rw [brokenHop]
    split
    · exact ih places.2
    · exact .nil
    · exact .one (places.1 (List.mem_singleton_self _)) (List.contains_iff_mem.mpr hop)

/-- A path is reported within itself, by what it starts with. -/
theorem reports_memberPath (path : Resolved.MemberPath) :
    Reports path.unit path.spans (pathKinds path) (memberPath path) := by
  rw [memberPath]
  split
  · apply reports_brokenHop
    · refine .ite (.one (List.mem_append_right _ (List.mem_singleton_self _)) ?_) .nil
      cases origin : path.origin <;> simp [origin, pathKinds, Problem.kind]
    · cases origin : path.origin <;> simp [origin, pathKinds]
    · exact List.Subset.trans (List.subset_append_right ..) (List.subset_append_left ..)
  · exact .nil
  · split
    · exact .nil
    · next origin =>
      exact .one (by simp [Resolved.MemberPath.spans, origin, Syntax.Identifier.spans])
        (by simp [pathKinds, origin, Problem.kind])

/-- A misused operator is reported where the comparison stands. -/
theorem reports_misusedOperator {spans : List Span} {expression : Resolved.Criteria}
    (place : ∀ source comparison target span,
      expression = .operator source comparison target span → span ∈ spans) :
    Reports unit spans criteriaKinds (misusedOperator unit expression) := by
  unfold misusedOperator
  split
  · exact .ite (.one (place _ _ _ _ rfl) rfl) .nil
  · exact .nil

theorem ofKinds_criteriaRules {criteria : Resolved.Criteria} :
    OfKinds criteriaKinds (criteriaRules unit criteria) := by
  simp only [criteriaRules, OfKinds.append]
  refine ⟨⟨.flatMap fun path => (reports_memberPath path).ofKinds.mono (pathKinds_subset path),
    .map fun _ => rfl⟩, .flatMap fun expression => ?_⟩
  cases expression with
  | operator source comparison target span =>
    exact .ite (by simp [Problem.kind, criteriaKinds]) (.nil _)
  | _ => exact .nil _

/-- The rules about a resolved criteria report where it was written. -/
theorem reports_criteriaRules {registry : Registry} {scope : Scope} {criteria : Syntax.Criteria} :
    Reports scope.unit criteria.spans criteriaKinds
      (criteriaRules scope.unit (program.resolveCriteria registry scope criteria)) := by
  intro finding member
  have kind := ofKinds_criteriaRules finding member
  simp only [criteriaRules, List.mem_append, List.mem_flatMap, List.mem_map] at member
  rcases member with (⟨path, among, found⟩ | ⟨use, among, rfl⟩) | ⟨expression, among, found⟩
  · obtain ⟨inUnit, subset⟩ := Program.path_resolveCriteria among
    obtain ⟨unit, place, -⟩ := reports_memberPath path finding found
    exact ⟨unit.trans inUnit, subset place, kind⟩
  · exact ⟨rfl, Program.variable_resolveCriteria (List.mem_of_mem_filter among), kind⟩
  · have misused : Reports scope.unit criteria.spans criteriaKinds
        (misusedOperator scope.unit expression) :=
      reports_misusedOperator fun _ _ _ _ same => Program.operator_resolveCriteria (same ▸ among)
    exact misused finding found

theorem ofKinds_orderByRules (ordering : Resolved.OrderBy) :
    OfKinds criteriaKinds (orderByRules ordering) := by
  refine .flatMap fun member => ?_
  split
  · exact (reports_memberPath _).ofKinds.mono (pathKinds_subset _)
  · simp [Problem.kind, criteriaKinds]

/-- The rules about an ordering report within it. -/
theorem reports_orderByRules {this : Resolution ClassifierIndex} {ordering : Syntax.OrderBy} :
    Reports unit ordering.spans criteriaKinds
      (orderByRules (program.resolveOrderBy this unit ordering)) := by
  intro finding member
  have kind := ofKinds_orderByRules _ finding member
  obtain ⟨resolved, among, found⟩ := List.mem_flatMap.mp member
  obtain ⟨declared, isDeclared, rfl⟩ := List.mem_map.mp among
  have inside : (program.resolveThisPath this unit declared.path).spans ⊆ ordering.spans := by
    intro span member
    have inPath := Program.spans_resolveThisPath this unit declared.path member
    simp only [Syntax.OrderBy.spans, Syntax.OrderByMember.spans, List.mem_append, List.mem_flatMap]
    exact .inr ⟨declared, isDeclared, .inr inPath⟩
  split at found
  · obtain ⟨here, place, -⟩ := reports_memberPath _ finding found
    exact ⟨here, inside place, kind⟩
  · next first rest hops =>
    rw [List.mem_singleton.mp found] at kind ⊢
    refine ⟨rfl, inside ?_, kind⟩
    rw [Resolved.MemberPath.spans, hops]
    simp [Syntax.Identifier.spans]

/-- A foreign key is reported at the end it was found for. -/
theorem reports_foreignKeyRule {key : Resolved.ForeignKey} :
    Reports unit [(program.associationEnds.get key.associationEnd).declaration.span] criteriaKinds
      (foreignKeyRule program unit key) := by
  simp only [foreignKeyRule]
  split
  · exact .one (List.mem_singleton_self _) rfl
  · exact .one (List.mem_singleton_self _) rfl
  · exact .nil

theorem ofKinds_criteria (program : Program) : OfKinds criteriaKinds (criteria program) := by
  simp only [criteria, OfKinds.append]
  refine ⟨⟨⟨.flatMap fun _ => .elim fun _ => ofKinds_criteriaRules, .flatMap fun service => ?_⟩,
    .flatMap fun associationEnd => .elim fun ordering => ?_⟩,
    .flatMap fun _ => .flatMap fun key => reports_foreignKeyRule.ofKinds⟩
  · rw [serviceCriteria, OfKinds.append]
    exact ⟨.flatMap fun _ => .elim fun _ => ofKinds_criteriaRules,
      .elim fun _ => ofKinds_orderByRules _⟩
  · rw [OfKinds.append]
    exact ⟨.ite (by simp [Problem.kind, criteriaKinds]) (.nil _), ofKinds_orderByRules _⟩

end Criteria

section Projections

def projectionKinds : List ProblemKind :=
  [.projectionProperty, .projectionEndNotFound, .projectionEndAmbiguous,
    .projectionReferenceClass, .unresolvedType]

theorem reports_reference {owner : String} {found : Resolution Resolved.Reference} :
    Reports unit name.spans projectionKinds (reference unit owner name found) := by
  cases found with
  | resolved _ => exact .nil
  | notFound | ambiguous =>
    exact .one (List.mem_singleton_self _) rfl

/-- A nested projection is reported where it is named. -/
theorem reports_nestedProjection {projectionName : Syntax.Identifier}
    {target : Resolution ClassifierIndex} {found : Resolution ProjectionIndex} :
    Reports unit projectionName.spans projectionKinds
      (nestedProjection program unit name target projectionName found) := by
  have atName : projectionName.span ∈ projectionName.spans := List.mem_singleton_self _
  cases found with
  | ambiguous => exact .nil
  | notFound => exact .one atName rfl
  | resolved index =>
    unfold nestedProjection
    dsimp only
    split
    · exact .ite .nil (.one atName rfl)
    · exact .nil

mutual

/-- The rules about an element of a projection report within it, by its constructors. -/
theorem reports_projectionElement (program : Program) (unit : UnitId) (owner : String) :
    ∀ element : Resolved.ProjectionElement,
      Reports unit element.spans projectionKinds (projectionElement program unit owner element)
  | .property name _ property => by
    rw [projectionElement]
    exact .ite (.one (List.mem_singleton_self _) rfl) .nil
  | .reference name found children => by
    rw [projectionElement, Reports.append]
    refine ⟨reports_reference.widen (List.subset_append_left ..), ?_⟩
    split
    · exact (reports_projectionElements program unit _ children).widen
        (List.subset_append_right ..)
    · exact .nil
    · exact .nil
  | .projection name found projectionName projection => by
    rw [projectionElement, Reports.append]
    exact ⟨reports_reference.widen (List.subset_append_left ..),
      reports_nestedProjection.widen (List.subset_append_right ..)⟩
termination_by element => sizeOf element

theorem reports_projectionElements (program : Program) (unit : UnitId) (owner : String) :
    ∀ elements : List Resolved.ProjectionElement,
      Reports unit (Resolved.ProjectionElement.allSpans elements) projectionKinds
        (projectionElements program unit owner elements)
  | [] => by simp [projectionElements]
  | element :: rest => by
    rw [projectionElements, Reports.append]
    exact ⟨(reports_projectionElement program unit owner element).widen
        (List.subset_append_left ..),
      (reports_projectionElements program unit owner rest).widen
        (List.subset_append_right ..)⟩
termination_by elements => sizeOf elements

end

theorem reports_projectionRules {projection : Resolved.Projection} :
    Reports projection.header.unit (Resolved.ProjectionElement.allSpans projection.children)
      projectionKinds (projectionRules program projection) :=
  .ite (reports_projectionElements _ _ _ _) .nil

end Projections

section Services

def serviceKinds : List ProblemKind :=
  [.unresolvedServiceGroupType, .forwardReference, .emptyServiceGroup, .verbCriteria,
    .serviceProjection]

/-- The class of a service group is reported where it is named. -/
theorem reports_groupClass {workspace : Workspace} {group : Resolved.ServiceGroup} :
    Reports group.header.unit group.className.spans serviceKinds (groupClass workspace group) := by
  have atName : group.className.span ∈ group.className.spans := List.mem_singleton_self _
  simp only [groupClass]
  split
  · refine .one atName ?_
    split <;> rfl
  · exact .ite (.one atName rfl) .nil
  · exact .nil
  · exact .nil

theorem reports_emptyGroup (group : Resolved.ServiceGroup) :
    Reports group.header.unit [group.header.name.span] serviceKinds (emptyGroup group) :=
  .ite (.one (List.mem_singleton_self _) rfl) .nil

/-- The projection of a service is reported within the service. -/
theorem reports_serviceProjection {group : Resolved.ServiceGroup} {service : Resolved.Service} :
    Reports service.context.unit service.declaration.spans serviceKinds
      (serviceProjection program group service) := by
  have atName {name : Syntax.Identifier} (declared : service.declaration.projection = some name) :
      name.span ∈ service.declaration.spans := by
    simp [Syntax.Service.spans, declared, Syntax.Identifier.spans]
  unfold serviceProjection
  split
  · next declared _ => exact .one (atName declared) rfl
  · next declared _ =>
    split
    · exact .ite .nil (.one (atName declared) rfl)
    · exact .nil
  · exact .nil

theorem ofKinds_services (workspace : Workspace) :
    OfKinds serviceKinds (services workspace) := by
  refine .flatMap fun group => ?_
  simp only [groupRules, OfKinds.append]
  refine ⟨⟨reports_groupClass.ofKinds, (reports_emptyGroup _).ofKinds⟩,
    .flatMap fun url => .flatMap fun service => ?_⟩
  rw [OfKinds.append]
  exact ⟨.map fun _ => rfl, reports_serviceProjection.ofKinds⟩

end Services
end Rules

namespace Workspace

/-- The groups of rules, each with the kinds that it reports. -/
def ruleGroups (workspace : Workspace) : List (List ProblemKind × List Finding) :=
  Uniqueness.groups workspace ++ [(Naming.kinds, Naming.findings workspace),
    (Rules.classKinds, Rules.classes workspace.program),
    (Rules.implementedKinds ++ Rules.ancestryKinds, Rules.inheritance workspace),
    (Rules.propertyKinds, Rules.properties workspace),
    (Rules.criteriaKinds, Rules.criteria workspace.program),
    (Rules.projectionKinds, Rules.projections workspace.program),
    (Rules.serviceKinds, Rules.services workspace)]

/-- Each group of rules reports the kinds it is listed with. -/
theorem ofKinds_of_mem_ruleGroups (workspace : Workspace) :
    ∀ group ∈ workspace.ruleGroups, OfKinds group.1 group.2 := by
  simp only [ruleGroups, List.forall_mem_append, List.forall_mem_cons]
  exact ⟨Uniqueness.ofKinds_of_mem_groups _, Naming.ofKinds_findings _, Rules.ofKinds_classes _,
    Rules.ofKinds_inheritance _,
    .flatMap fun index => (Rules.reports_propertyRules _ index).ofKinds,
    Rules.ofKinds_criteria _, .flatMap fun _ => Rules.reports_projectionRules.ofKinds,
    Rules.ofKinds_services _, by simp⟩

/-- The findings of a kind are those of the groups that report it. -/
theorem filter_findings (workspace : Workspace) (kind : ProblemKind) :
    workspace.findings.filter (·.problem.kind = kind) =
      (workspace.ruleGroups.filter (kind ∈ ·.1)).flatMap
        (·.2.filter (·.problem.kind = kind)) := by
  have all : workspace.findings = workspace.ruleGroups.flatMap Prod.snd := by
    simp [findings, Uniqueness.findings, Uniqueness.groups, Rules.findings, ruleGroups]
  have each := workspace.ofKinds_of_mem_ruleGroups
  rw [all]
  generalize workspace.ruleGroups = groups at each
  induction groups with
  | nil => rfl
  | cons group groups ih =>
    obtain ⟨here, later⟩ := List.forall_mem_cons.mp each
    rw [List.flatMap_cons, List.filter_append, ih later]
    by_cases among : kind ∈ group.1
    · rw [List.filter_cons_of_pos (by simpa using among), List.flatMap_cons]
    · rw [List.filter_cons_of_neg (by simpa using among), here.filter_eq_nil kind among,
        List.nil_append]

end Workspace
end DomainLang
