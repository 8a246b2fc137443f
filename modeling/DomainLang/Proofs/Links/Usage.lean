import DomainLang.Proofs.Compilation

/-!
# The properties that are referred to

Orderings, projections and criteria each note the properties that they resolve to, one after the
other and each by a traversal of its own. Together these are the properties that anything in the
program refers to, at whatever depth. So the warning about a private property that nothing refers
to means what it says.
-/

namespace DomainLang

open Resolved

namespace Resolved

/-- A path occurs in criteria, at any depth. -/
def Criteria.HasPath (path : MemberPath) : Criteria → Prop
  | .all _ => False
  | .and left right | .or left right => left.HasPath path ∨ right.HasPath path
  | .operator source _ target _ => source = .member path ∨ target = .member path
  | .edgePoint found _ => found = path

/-- An element of a projection, or one under it, resolves to a property. -/
inductive ProjectionElement.HasLeaf : ProjectionElement → PropertyIndex → Prop
  | property {name : Syntax.Identifier} {header : String} {property : PropertyIndex} :
      HasLeaf (.property name header (.resolved property)) property
  | reference {name : Syntax.Identifier} {found : Resolution Reference}
      {children : List ProjectionElement} {child : ProjectionElement} {property : PropertyIndex} :
      child ∈ children → HasLeaf child property → HasLeaf (.reference name found children) property

theorem Criteria.mem_memberPaths_iff {path : MemberPath} {criteria : Criteria} :
    path ∈ criteria.memberPaths ↔ criteria.HasPath path := by
  have value (operand : Value) : path ∈ operand.path? ↔ operand = .member path := by
    cases operand <;> simp [Value.path?]
  induction criteria with
  | all span => simp [memberPaths, expressions, ownPaths, HasPath]
  | and left right first second => simp [HasPath, first, second]
  | or left right first second => simp [HasPath, first, second]
  | operator source comparison target span =>
    simp [memberPaths, expressions, ownPaths, HasPath, ← value]
  | edgePoint found span => simp [memberPaths, expressions, ownPaths, HasPath, eq_comm]

mutual

theorem ProjectionElement.mem_properties_iff (property : PropertyIndex) :
    ∀ element : ProjectionElement, property ∈ element.properties ↔ element.HasLeaf property
  | .property name header found => by
    rw [properties, Option.mem_toList, Resolution.value?_eq_some]
    constructor
    · rintro rfl
      exact .property
    · rintro ⟨⟩
      rfl
  | .reference name found children => by
    rw [properties, mem_propertiesOfAll_iff property children]
    constructor
    · rintro ⟨child, among, leaf⟩
      exact .reference among leaf
    · rintro ⟨⟩
      next child among leaf => exact ⟨child, among, leaf⟩
  | .projection .. => by
    rw [properties]
    exact iff_of_false (by simp) (by rintro ⟨⟩)
termination_by element => sizeOf element

theorem ProjectionElement.mem_propertiesOfAll_iff (property : PropertyIndex) :
    ∀ elements : List ProjectionElement, property ∈ propertiesOfAll elements ↔
      ∃ element ∈ elements, element.HasLeaf property
  | [] => by simp [propertiesOfAll]
  | element :: rest => by
    rw [propertiesOfAll, List.mem_append, mem_properties_iff property element,
      mem_propertiesOfAll_iff property rest, List.exists_mem_cons_iff]
termination_by elements => sizeOf elements

end

end Resolved

namespace Program

/-- Something refers to a property: a path in a relationship, a clause or an ordering, or a leaf
of a projection. -/
inductive RefersTo (program : Program) (property : PropertyIndex) : Prop
  | relationship {association : Association} {criteria : Criteria} {path : MemberPath} :
      association ∈ program.associations.records → association.relationship = some criteria →
      criteria.HasPath path → path.property = .resolved property → RefersTo program property
  | clause {service : Service} {clause : Clause} {criteria : Criteria} {path : MemberPath} :
      service ∈ program.services.records → clause ∈ service.clauses →
      clause.criteria = some criteria → criteria.HasPath path →
      path.property = .resolved property → RefersTo program property
  | endOrdering {associationEnd : AssociationEnd} {ordering : OrderBy} {member : OrderByMember} :
      associationEnd ∈ program.associationEnds.records →
      associationEnd.orderBy = some ordering → member ∈ ordering.members →
      member.path.property = .resolved property → RefersTo program property
  | serviceOrdering {service : Service} {ordering : OrderBy} {member : OrderByMember} :
      service ∈ program.services.records → service.orderBy = some ordering →
      member ∈ ordering.members → member.path.property = .resolved property →
      RefersTo program property
  | projection {projection : Projection} {element : ProjectionElement} :
      projection ∈ program.projections.records → element ∈ projection.children →
      element.HasLeaf property → RefersTo program property

/-- To look for a join does not change the relationship. -/
theorem relationship_classify (program : Program) (association : Association) :
    (Association.classify program association).relationship = association.relationship := by
  obtain ⟨join, foreignKeys, same⟩ := classify_eq program association
  rw [same]

/-- What orderings, projections and criteria note, in terms of what they leave. -/
theorem referencedProperties_linkReferences (program : Program) (registry : Registry) :
    let final := program.linkReferences registry
    final.referencedProperties = program.referencedProperties ++
      propertiesOf ((final.associationEnds.records.map (·.orderBy) ++
        final.services.records.map (·.orderBy)).flatMap orderingPaths) ++
      final.projections.records.flatMap (ProjectionElement.propertiesOfAll ·.children) ++
      propertiesOf ((final.associations.records.filterMap (·.relationship) ++
        final.services.records.flatMap fun service =>
          service.clauses.filterMap (·.criteria)).flatMap Criteria.memberPaths) := by
  have relationships (classified : Program) (associations : List Association) :
      (associations.map (Association.classify classified)).filterMap (·.relationship) =
        associations.filterMap (·.relationship) := by
    rw [List.filterMap_map]
    exact List.filterMap_congr fun association _ => relationship_classify classified association
  simp only [linkReferences, linkCriteria, linkServices, linkProjections, linkOrderings,
    classifyJoins, refer, Arena.map, relationships]
  simp only [List.map_map]
  rfl

theorem mem_propertiesOf_iff {paths : List MemberPath} {property : PropertyIndex} :
    property ∈ propertiesOf paths ↔ ∃ path ∈ paths, path.property = .resolved property := by
  simp [propertiesOf]

theorem mem_orderingPaths_iff {ordering : Option OrderBy} {path : MemberPath} :
    path ∈ orderingPaths ordering ↔
      ∃ found, ordering = some found ∧ ∃ member ∈ found.members, member.path = path := by
  cases ordering <;> simp [orderingPaths]

/-- Where nothing is noted before, exactly what something refers to is noted. -/
theorem mem_referencedProperties_linkReferences {program : Program} {registry : Registry}
    (blank : program.referencedProperties = []) {property : PropertyIndex} :
    property ∈ (program.linkReferences registry).referencedProperties ↔
      (program.linkReferences registry).RefersTo property := by
  rw [referencedProperties_linkReferences, blank, List.nil_append]
  simp only [List.mem_append, mem_propertiesOf_iff, List.mem_flatMap, List.mem_map,
    List.mem_filterMap, mem_orderingPaths_iff, ProjectionElement.mem_propertiesOfAll_iff,
    Criteria.mem_memberPaths_iff]
  constructor
  · rintro ((⟨path, ⟨_, ⟨associationEnd, among, rfl⟩ | ⟨service, among, rfl⟩, ordering, ordered,
      member, listed, rfl⟩, found⟩ | ⟨projection, among, element, child, leaf⟩) |
      ⟨path, ⟨criteria, ⟨association, among, related⟩ | ⟨service, among, clause, listed, made⟩,
        occurs⟩, found⟩)
    · exact .endOrdering among ordered listed found
    · exact .serviceOrdering among ordered listed found
    · exact .projection among child leaf
    · exact .relationship among related occurs found
    · exact .clause among listed made occurs found
  · intro refers
    cases refers with
    | relationship among related occurs found =>
      exact .inr ⟨_, ⟨_, .inl ⟨_, among, related⟩, occurs⟩, found⟩
    | clause among listed made occurs found =>
      exact .inr ⟨_, ⟨_, .inr ⟨_, among, _, listed, made⟩, occurs⟩, found⟩
    | endOrdering among ordered listed found =>
      exact .inl (.inl ⟨_, ⟨_, .inl ⟨_, among, rfl⟩, _, ordered, _, listed, rfl⟩, found⟩)
    | serviceOrdering among ordered listed found =>
      exact .inl (.inl ⟨_, ⟨_, .inr ⟨_, among, rfl⟩, _, ordered, _, listed, rfl⟩, found⟩)
    | projection among child leaf => exact .inl (.inr ⟨_, among, _, child, leaf⟩)

/-- A private property that is not temporal, a version or kept for audits, and that nothing
refers to. -/
structure Unreferenced (program : Program) (index : PropertyIndex) : Prop where
  holds : program.properties.Holds index
  isPrivate : (program.properties.get index).has .privateAccess = true
  notTemporal : (program.properties.get index).has .valid = false ∧
    (program.properties.get index).has .system = false
  notVersion : (program.properties.get index).has .version = false
  notAudit : ∀ mark ∈ (program.properties.get index).declaration.modifiers,
    mark.modifier.isAudit = false
  nowhere : ¬ program.RefersTo index

/-- The diagnostic that warns about a property, at its name. -/
def WarnsAbout (program : Program) (index : PropertyIndex) (diagnostic : Diagnostic) : Prop :=
  let property := program.properties.get index
  diagnostic = Finding.diagnostic
    ⟨.unreferencedPrivate property.name.name, property.context.unit, property.name.span⟩

end Program

theorem Resolved.Property.isBookkeeping_eq_false_iff {property : Property} :
    property.isBookkeeping = false ↔
      (property.has .valid = false ∧ property.has .system = false) ∧
        property.has .version = false ∧
        ∀ mark ∈ property.declaration.modifiers, mark.modifier.isAudit = false := by
  simp [isBookkeeping, temporalFamily?, and_assoc]

namespace Workspace

variable {workspace : Workspace}

/-- The warnings belong to the properties to be warned about, one by one. -/
def WarnsAboutUnreferenced (workspace : Workspace) (isWanted : Bool)
    (diagnostics : List Diagnostic) : Prop :=
  ∃ reported : List PropertyIndex, reported.Nodup ∧
    (∀ index, index ∈ reported ↔ isWanted = true ∧ workspace.program.Unreferenced index) ∧
    List.Forall₂ workspace.program.WarnsAbout reported
      (diagnostics.filter (·.kind = .unreferencedPrivate))

/-- The findings about properties that nothing refers to, property by property. -/
theorem filter_findings_unreferenced (workspace : Workspace) :
    workspace.findings.filter (·.problem.kind = .unreferencedPrivate) =
      workspace.program.properties.indices.flatMap (Rules.unreferenced workspace) := by
  rw [filter_findings]
  change (Rules.properties workspace).filter _ ++ [] = _
  rw [List.append_nil, Rules.properties, List.filter_flatMap]
  refine List.flatMap_congr fun index _ => ?_
  rw [Rules.propertyRules, List.filter_append,
    (Rules.reports_form _).ofKinds.filter_eq_nil .unreferencedPrivate (by decide), List.nil_append]
  exact List.filter_eq_self.mpr fun finding found => by
    simp only [Rules.unreferenced, Rules.PropertyRule.findingIf] at found
    split at found
    · cases List.mem_singleton.mp found
      rfl
    · cases found

theorem warnsAboutUnreferenced (noted : ∀ property,
      property ∈ workspace.program.referencedProperties ↔ workspace.program.RefersTo property) :
    workspace.WarnsAboutUnreferenced workspace.options.reportUnreferencedPrivate
      (workspace.findings.map Finding.diagnostic) := by
  have each (index : PropertyIndex) (listed : index ∈ workspace.program.properties.indices) :
      (workspace.options.reportUnreferencedPrivate = true ∧
          workspace.program.Unreferenced index) ∧
        (∃ finding, Rules.unreferenced workspace index = [finding] ∧
          workspace.program.WarnsAbout index finding.diagnostic) ∨
        ¬ (workspace.options.reportUnreferencedPrivate = true ∧
          workspace.program.Unreferenced index) ∧ Rules.unreferenced workspace index = [] := by
    simp only [Rules.unreferenced, Rules.PropertyRule.findingIf]
    split
    all_goals
      rename_i test
      simp only [Bool.and_eq_true, Bool.not_eq_true', decide_eq_true_iff, noted,
        Property.isBookkeeping_eq_false_iff, and_assoc] at test
    · obtain ⟨wanted, isPrivate, valid, system, version, audit, nowhere⟩ := test
      refine .inl ⟨⟨wanted, ?_, isPrivate, ⟨valid, system⟩, version, audit, nowhere⟩, _, rfl, rfl⟩
      exact Arena.mem_indices.mp listed
    · refine .inr ⟨?_, rfl⟩
      rintro ⟨wanted, -, isPrivate, ⟨valid, system⟩, version, audit, nowhere⟩
      exact test ⟨wanted, isPrivate, valid, system, version, audit, nowhere⟩
  obtain ⟨reported, sublist, member, related⟩ := exists_reported each
  refine ⟨reported, sublist.nodup (Arena.nodup_indices _), fun index => ?_, ?_⟩
  · rw [member]
    exact and_iff_right_of_imp fun breaks => Arena.mem_indices.mpr breaks.2.holds
  · rw [List.filter_map, List.forall₂_map_right_iff]
    exact (filter_findings_unreferenced workspace).symm ▸ related

end Workspace

namespace Phase.Stages

variable {options : Options} {units : List CompilationUnit}
  {recorded : List RecordedDeclaration} {fragments : List CompilationUnit}
  {start inferred served : Workspace}
  (stages : Stages options units recorded fragments start inferred served)
include stages

/-- Inferring changes neither the options nor what is referred to. -/
theorem unreferenced_served :
    served.program.referencedProperties = [] ∧ served.options = options := by
  obtain ⟨_, properties⟩ := returns_optionally_inferTemporalProperties stages.temporal
  have clauses := returns_optionally_inferServiceCriteria stages.criteria
  constructor
  · rw [clauses.program, properties.adds.others]
    exact stages.unreferenced
  · rw [clauses.surroundings, properties.adds.surroundings]
    exact stages.options_eq

end Phase.Stages

/-- Uses of properties are noted exactly: what an analysis notes are the properties that a path of
a relationship, a clause or an ordering or a leaf of a projection resolves to, and a warning is
given once for each private property that is not among them and need be, if it is asked for. -/
theorem analyze_notes_references (options : Options) (units : List CompilationUnit)
    (after : Workspace) (returns : Phase.analyze.perform { options, units } = (.ok (), after)) :
    after.program.LinkedReferences after.registry ∧
    (∀ property, property ∈ after.program.referencedProperties ↔
      after.program.RefersTo property) ∧
    after.WarnsAboutUnreferenced options.reportUnreferencedPrivate after.report.diagnostics := by
  obtain ⟨recorded, fragments, start, inferred, served, stages, rfl⟩ :=
    Phase.exists_stages returns
  obtain ⟨blank, wanted⟩ := stages.unreferenced_served
  have noted (property : PropertyIndex) :
      property ∈ served.linkReferences.program.referencedProperties ↔
        served.linkReferences.program.RefersTo property :=
    Program.mem_referencedProperties_linkReferences blank
  have warns := Workspace.warnsAboutUnreferenced noted
  rw [show served.linkReferences.options = options from wanted] at warns
  rw [Workspace.program_reportAll, Workspace.registry_reportAll,
    Workspace.diagnostics_reportAll stages.analysed.report]
  exact ⟨stages.analysed.references, noted, warns⟩

namespace Sample

open Syntax

/-- Two private properties, of which a projection shows one. -/
def safes : SourceTree where
  package := ⟨.bare, "com.example"⟩
  elements := [
    klass "Safe" none [] [number "id" false [.key], number "shown" false [.privateAccess],
      number "hidden" false [.privateAccess]],
    .projection ⟨.bare, .bare "View", .bare "Safe", [.property .bare (.bare "shown") "Shown"]⟩]

end Sample

/-- The property that is shown is noted, and there is a warning about the other one. -/
theorem analyze_notes_references_safes : ∃ after, Phase.analyze.perform
      { options := {}, units := [.ofTree ⟨0⟩ "safes" Sample.safes] } = (.ok (), after) ∧
    after.program.RefersTo ⟨1⟩ ∧
    (after.report.diagnostics.filter (·.kind = .unreferencedPrivate)).length = 1 ∧
    after.WarnsAboutUnreferenced true after.report.diagnostics := by
  have seen : (Phase.analyze.perform
      { options := {}, units := [.ofTree ⟨0⟩ "safes" Sample.safes] }).map Except.toOption
        (fun after => (after.program.referencedProperties,
          (after.report.diagnostics.filter (·.kind = .unreferencedPrivate)).length)) =
      (some (), [⟨1⟩], 1) := by cbv
  obtain ⟨after, returns, seen⟩ := Phase.exists_returns_of_map_eq seen
  simp only [Prod.mk.injEq] at seen
  obtain ⟨referenced, warned⟩ := seen
  obtain ⟨-, noted, warns⟩ := analyze_notes_references _ _ _ returns
  exact ⟨after, returns, (noted _).mp (by simp [referenced]), warned, warns⟩

end DomainLang
