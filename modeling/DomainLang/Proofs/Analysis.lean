import DomainLang.Proofs.Links.References

/-!
# What an analysis leaves

`Workspace.Analysed` collects what is known about the program when all declarations, links
and inferences are in place and nothing is reported yet. Every analysis that ends arrives
there, and it always ends when the contexts of declarations and members are distinct and
expansions are allowed at all.
-/

namespace DomainLang

open Resolved

variable {before after : Program}

/-- A declaration's record has the header of the declaration. -/
theorem Program.Describes.header_eq {program : Program} {header : Header}
    {element : Syntax.Declaration} {index : TopLevelIndex}
    (describes : program.Describes header element index) : program.header index = header := by
  cases describes with
  | enumeration _ written => exact congrArg Enumeration.header written
  | interface _ written => exact congrArg Classifier.header written
  | klass _ written => exact congrArg (fun klass : Resolved.Class => klass.header) written
  | association _ written _ _ _ _ => exact congrArg Association.header written
  | projection _ written => exact congrArg Projection.header written
  | serviceGroup _ written _ _ => exact congrArg ServiceGroup.header written

namespace Registry

/-- What is known about a program and its names while declarations are being linked. -/
structure Settled (registry : Registry) (program : Program)
    (recorded : List RecordedDeclaration) : Prop where
  coherent : program.Coherent none none
  names : registry.Names program
  records : registry.Records program recorded
  distinct : registry.keys.Nodup

/-- Outcomes of lookups do not matter. -/
theorem Settled.of_unlinked_eq {registry : Registry} {recorded : List RecordedDeclaration}
    (settled : registry.Settled before recorded) (same : after.unlinked = before.unlinked) :
    registry.Settled after recorded where
  coherent := settled.coherent.of_unlinked_eq same.symm
  names := settled.names.of_keeps (.of_unlinked_eq same.symm) (.of_unlinked_eq same)
  records := settled.records.mono (.of_unlinked_eq same.symm) (.of_unlinked_eq same)
    (List.Subset.refl _)
  distinct := settled.distinct

/-- Every record that is declared at the top level has the header of a declaration. -/
theorem Settled.exists_header {registry : Registry} {program : Program}
    {recorded : List RecordedDeclaration} (settled : registry.Settled program recorded)
    {index : TopLevelIndex} (holds : program.HoldsTopLevel index) :
    ∃ declaration ∈ recorded.map Prod.fst, ∃ ordinal,
      program.header index = .ofElement declaration.1 ordinal declaration.2 := by
  have member : index ∈ recorded.map Prod.snd :=
    settled.records.all.mem_iff.mpr (Program.mem_topLevelByKind.mpr holds)
  obtain ⟨entry, entryMember, rfl⟩ := List.mem_map.mp member
  obtain ⟨ordinal, describes⟩ := settled.records.describes_mem entryMember
  exact ⟨entry.1, List.mem_map_of_mem entryMember, ordinal, describes.header_eq⟩

end Registry

/-- The classifier that a fragment expands keeps its header. -/
theorem Program.TemporalFragment.of_keeps (keeps : before.Keeps after)
    {fragment : CompilationUnit} (made : before.TemporalFragment fragment) :
    after.TemporalFragment fragment := by
  obtain ⟨owner, members, body, holds, expansion, each, placed⟩ := made
  rw [← keeps.classifierHeader_eq holds] at expansion placed
  exact ⟨owner, members, body, keeps.holdsClassifier holds, expansion, each, placed⟩

theorem records_properties_of_unlinked_eq (same : after.unlinked = before.unlinked) :
    after.properties.records.map Property.unlinked =
      before.properties.records.map Property.unlinked := by
  have records := congrArg (fun program => program.properties.records) same
  exact records

theorem records_endSignatures_of_unlinked_eq (same : after.unlinked = before.unlinked) :
    after.endSignatures.records.map EndSignature.unlinked =
      before.endSignatures.records.map EndSignature.unlinked := by
  have records := congrArg (fun program => program.endSignatures.records) same
  exact records

/-- What is written in a clause and where it comes from is not the outcome of a lookup. -/
theorem exists_clause_of_unlinked_eq (same : after.unlinked = before.unlinked)
    {service : ServiceIndex} {clause : Clause}
    (member : clause ∈ (after.services.get service).clauses) :
    ∃ earlier ∈ (before.services.get service).clauses,
      earlier.declaration = clause.declaration ∧ earlier.unit = clause.unit ∧
        earlier.inferred = clause.inferred := by
  have clauses := Arena.field_get_of_map_eq (congrArg Program.services same).symm
    (fun service => service.clauses.map Clause.unlinked)
    (fun service => by simp [Service.unlinked, Clause.unlinked]) service
  have unlinked := List.mem_map_of_mem (f := Clause.unlinked) member
  rw [clauses, List.mem_map] at unlinked
  obtain ⟨earlier, among, equal⟩ := unlinked
  have declaration := congrArg Clause.declaration equal
  have unit := congrArg Clause.unit equal
  have inferred := congrArg Clause.inferred equal
  exact ⟨earlier, among, declaration, unit, inferred⟩

namespace Workspace

/-- A program in which everything is declared and linked with each other, with members of the
given fragments. -/
structure Linked (units : List CompilationUnit) (recorded : List RecordedDeclaration)
    (fragments : List CompilationUnit) (workspace : Workspace) : Prop
    extends workspace.registry.Settled workspace.program recorded where
  written : recorded.map Prod.fst = declarationsOf units
  declarations : workspace.program.LinkedDeclarations workspace.registry
  units_eq : ∃ more, workspace.units = units ++ fragments ++ more ∧
    ∀ fragment ∈ more, workspace.program.ServiceFragment fragment
  expands : ∀ fragment ∈ fragments, workspace.program.TemporalFragment fragment
  distinctUnits : (units.map (·.id)).Nodup → (workspace.units.map (·.id)).Nodup
  /-- An inferred clause is that of a fragment. -/
  inferredClauses : ∀ service, workspace.program.services.Holds service →
    ∀ clause ∈ (workspace.program.services.get service).clauses,
      clause.inferred.isSome → workspace.HasClause service clause
  /-- Properties are those written, then those inferred. -/
  properties : workspace.program.properties.records.map Property.unlinked =
    (recorded.flatMap writtenProperties ++
      fragments.flatMap CompilationUnit.fragmentProperties).map Property.unlinked
  endSignatures : workspace.program.endSignatures.records.map EndSignature.unlinked =
    (recorded.flatMap writtenSignatures).map EndSignature.unlinked
  report : workspace.report = {}

/-- A program in which all names are looked up. -/
structure Analysed (units : List CompilationUnit) (recorded : List RecordedDeclaration)
    (fragments : List CompilationUnit) (workspace : Workspace) : Prop
    extends Linked units recorded fragments workspace where
  references : workspace.program.LinkedReferences workspace.registry

variable {before after : Workspace} {units : List CompilationUnit}
  {recorded : List RecordedDeclaration} {fragments : List CompilationUnit}

theorem InfersProperties.linked (infers : before.InfersProperties fragments after)
    (linked : before.Linked before.units recorded []) :
    after.Linked before.units recorded fragments where
  coherent := infers.adds.coherent linked.coherent
  names := infers.adds.names linked.names
  records := linked.records.mono infers.adds.keeps infers.adds.same infers.adds.contexts_subset
  distinct := infers.adds.nodup linked.distinct
  written := linked.written
  declarations := infers.linkedDeclarations linked.declarations
  units_eq := ⟨[], by simp [infers.units], by simp⟩
  expands fragment member := (infers.each fragment member).of_keeps infers.adds.keeps
  distinctUnits := infers.distinct
  inferredClauses := by
    have services : after.program.services = before.program.services := by
      rw [infers.adds.others]
    rw [services]
    intro service holds clause member inferred
    obtain ⟨fragment, among, placed⟩ := linked.inferredClauses service holds clause member inferred
    exact ⟨fragment, by simp [infers.units, among], placed⟩
  properties := by
    have earlier := linked.properties
    rw [List.flatMap_nil, List.append_nil] at earlier
    rw [infers.adds.properties_eq, List.map_append, List.map_append]
    exact congrArg (· ++ _) earlier
  endSignatures := by
    rw [infers.adds.endSignatures_eq, List.append_nil]
    exact linked.endSignatures
  report := by
    rw [infers.adds.surroundings]
    exact linked.report

theorem InfersClauses.linked (infers : before.InfersClauses after)
    (whole : before.units = units ++ fragments) (linked : before.Linked units recorded fragments) :
    after.Linked units recorded fragments := by
  have registry : after.registry = before.registry := by rw [infers.surroundings]
  constructor
  case toSettled =>
    have names := infers.names linked.names
    rw [registry] at names ⊢
    exact ⟨infers.coherent linked.coherent, names,
      linked.records.mono infers.keeps infers.same (List.Subset.refl _), linked.distinct⟩
  case written => exact linked.written
  case declarations => exact infers.linkedDeclarations linked.declarations
  case units_eq =>
    obtain ⟨more, units, each⟩ := infers.units
    exact ⟨more, by rw [units, whole], each⟩
  case expands =>
    exact fun fragment member => (linked.expands fragment member).of_keeps infers.keeps
  case distinctUnits => exact infers.distinct ∘ linked.distinctUnits
  case inferredClauses =>
    intro service holds clause member inferred
    have held : before.program.services.Holds service := by
      simpa [Arena.Holds, infers.size] using holds
    rcases infers.clauses service held clause member with earlier | added
    · obtain ⟨fragment, among, placed⟩ :=
        linked.inferredClauses service held clause earlier inferred
      obtain ⟨more, units, -⟩ := infers.units
      exact ⟨fragment, by simp [units, among], placed⟩
    · exact added
  case properties =>
    rw [infers.program]
    exact linked.properties
  case endSignatures =>
    rw [infers.program]
    exact linked.endSignatures
  case report =>
    rw [infers.surroundings]
    exact linked.report

/-- The unit of every declaration is there. -/
theorem Linked.hasUnit (linked : before.Linked units recorded fragments) (index : TopLevelIndex)
    (holds : before.program.HoldsTopLevel index) :
    before.HasUnit (before.program.header index).unit ∧
      before.HasUnit (before.program.header index).context.unit := by
  obtain ⟨declaration, member, ordinal, header⟩ := linked.toSettled.exists_header holds
  rw [linked.written] at member
  obtain ⟨unit, unitMember, element, -, rfl⟩ := by
    simpa [declarationsOf] using member
  obtain ⟨more, allUnits, -⟩ := linked.units_eq
  have there : before.HasUnit unit.id := ⟨unit, by simp [allUnits, unitMember], rfl⟩
  rw [header]
  exact ⟨there, there⟩

/-- Expansions find everything that they refer to once all declarations are linked. -/
theorem Linked.expandable (linked : before.Linked units recorded fragments)
    (shallow : before.expansionDepth < before.options.maxExpansionDepth)
    (contexts : ∀ key ∈ before.registry.keys, before.HasUnit key.unit) : before.Expandable where
  shallow := shallow
  contexts := contexts
  classifiers classifier holds := by
    cases classifier with
    | interface index => exact (linked.hasUnit (.interface index) holds).2
    | klass index => exact (linked.hasUnit (.klass index) holds).2
  services service holds := by
    have heldUrl := linked.coherent.services.held_owner service holds
    have heldGroup := linked.coherent.urls.held_owner _ heldUrl
    rw [linked.coherent.serviceUnits service holds]
    exact (linked.hasUnit (.serviceGroup _) heldGroup).1

theorem linkReferences_eq (workspace : Workspace) :
    workspace.linkReferences =
      { workspace with program := workspace.program.linkReferences workspace.registry } :=
  rfl

theorem registry_linkReferences (workspace : Workspace) :
    workspace.linkReferences.registry = workspace.registry := by
  rw [linkReferences_eq]

theorem program_reportAll (workspace : Workspace) :
    workspace.reportAll.program = workspace.program :=
  rfl

theorem registry_reportAll (workspace : Workspace) :
    workspace.reportAll.registry = workspace.registry :=
  rfl

/-- Looking up the names in paths, projections and services completes the analysis. -/
theorem Linked.linkReferences (linked : before.Linked units recorded fragments) :
    before.linkReferences.Analysed units recorded fragments := by
  have unlinked := before.program.unlinked_linkReferences before.registry
  have final := before.linkReferences_eq
  rw [final]
  exact
    { toSettled := linked.toSettled.of_unlinked_eq unlinked
      written := linked.written
      declarations := linked.declarations.linkReferences
      units_eq := by
        obtain ⟨more, units, each⟩ := linked.units_eq
        exact ⟨more, units, fun fragment member =>
          (each fragment member).of_keeps (.of_unlinked_eq unlinked.symm)⟩
      expands := fun fragment member =>
        (linked.expands fragment member).of_keeps (.of_unlinked_eq unlinked.symm)
      distinctUnits := linked.distinctUnits
      inferredClauses := by
        intro service holds clause member inferred
        obtain ⟨earlier, among, declaration, unit, same⟩ :=
          exists_clause_of_unlinked_eq unlinked member
        have sameServices := (congrArg Program.services unlinked).symm
        have placed := linked.inferredClauses service
          ((Arena.holds_iff_of_map_eq sameServices).mp holds) earlier among (same ▸ inferred)
        rw [HasClause, declaration, unit] at placed
        exact placed
      properties := (records_properties_of_unlinked_eq unlinked).trans linked.properties
      endSignatures := (records_endSignatures_of_unlinked_eq unlinked).trans linked.endSignatures
      report := linked.report
      references := before.program.linkedReferences_linkReferences before.registry }

end Workspace

namespace Phase

variable {before after : Workspace} {isWanted : Options → Bool}

theorem returns_optionally {phase : Phase Unit} :
    (optionally isWanted phase).Returns before () after ↔
      if isWanted before.options then phase.Returns before () after else after = before := by
  simp only [optionally, returns_get_bind]
  split <;> simp

theorem succeeds_optionally {phase : Phase Unit} (succeeds : phase.Succeeds before) :
    (optionally isWanted phase).Succeeds before := by
  simp only [optionally, succeeds_get_bind]
  split
  · exact succeeds
  · exact succeeds_pure ..

/-- The properties are inferred if that is asked for. -/
theorem returns_optionally_inferTemporalProperties
    (returns : (optionally isWanted inferTemporalProperties).Returns before () after) :
    ∃ fragments, before.InfersProperties fragments after := by
  rw [returns_optionally] at returns
  split at returns
  · exact returns_inferTemporalProperties returns
  · subst returns
    exact ⟨[], .refl _⟩

/-- The clauses are inferred if that is asked for. -/
theorem returns_optionally_inferServiceCriteria
    (returns : (optionally isWanted inferServiceCriteria).Returns before () after) :
    before.InfersClauses after := by
  rw [returns_optionally] at returns
  split at returns
  · exact returns_inferServiceCriteria returns
  · subst returns
    exact .refl _

/-- What is known when all declarations and members have records and are linked. -/
theorem linked_linkDeclarations {options : Options} {units : List CompilationUnit}
    {declared : Workspace} (declares : declareUnits.Returns { options, units } () declared)
    (members : declareClassifierMembers.Returns declared () after) :
    ∃ recorded : List RecordedDeclaration,
      after.linkDeclarations.Linked units recorded [] ∧
      ({ options, units } : Workspace).Grows
        (recordKeys (declarationsOf units) ++ (declarationsOf units).flatMap memberKeys) after := by
  obtain ⟨grows, recorded, written, known⟩ := returns_declareUnits rfl rfl declares
  have sameUnits : declared.units = units := grows.units_eq
  have writtenThere : recorded.map Prod.fst = declarationsOf declared.units := by
    rw [sameUnits]
    exact written
  obtain ⟨adds, distinct, records⟩ := returns_declareClassifierMembers writtenThere
    (grows.nodup List.nodup_nil) known.records members
  rw [sameUnits] at adds
  have whole := grows.trans adds.toGrows
  have settled : after.registry.Settled after.program recorded :=
    ⟨adds.coherent known.coherent, adds.names known.names, records, distinct⟩
  have noEnds (klass : ClassIndex) : (after.program.classes.get klass).associationEnds = [] := by
    rw [← known.memberless.associationEnds klass]
    exact Arena.field_get_of_map_eq adds.classifiers.classes.symm Class.associationEnds
      (fun _ => rfl) klass
  let program := (after.program.linkHierarchy after.registry).linkAssociations after.registry
  have unlinked : program.unlinked = after.program.unlinked := by
    rw [Program.unlinked_linkAssociations, Program.unlinked_linkHierarchy]
  have linked : after.linkDeclarations = { after with program } := rfl
  rw [linked]
  refine ⟨recorded, ?_, whole⟩
  exact
    { toSettled := settled.of_unlinked_eq unlinked
      written := written
      declarations := Program.linkedDeclarations_link _ _ noEnds
      units_eq := ⟨[], by simpa using whole.units_eq, by simp⟩
      expands := by simp
      distinctUnits := by
        intro distinct
        change (after.units.map (·.id)).Nodup
        rw [whole.units_eq]
        exact distinct
      inferredClauses := by
        have services : program.services = declared.program.services := by
          change after.program.services = _
          rw [adds.others]
        rw [services]
        intro service holds clause member inferred
        rw [known.memberless.clauses service holds, List.mem_map] at member
        obtain ⟨_, _, rfl⟩ := member
        cases inferred
      properties := by
        refine (records_properties_of_unlinked_eq unlinked).trans ?_
        rw [adds.properties_eq, known.memberless.properties]
        simp
      endSignatures := by
        refine (records_endSignatures_of_unlinked_eq unlinked).trans ?_
        rw [adds.endSignatures_eq, known.memberless.endSignatures]
        simp
      report := by
        change after.report = {}
        rw [whole.surroundings] }

/-- The steps of an analysis. -/
theorem returns_analyze_iff {before after : Workspace} :
    analyze.Returns before () after ↔
      ∃ declared withMembers withProperties withClauses,
        declareUnits.Returns before () declared ∧
        declareClassifierMembers.Returns declared () withMembers ∧
        (optionally (·.temporalProperties) inferTemporalProperties).Returns
          withMembers.linkDeclarations () withProperties ∧
        (optionally (·.serviceCriteria) inferServiceCriteria).Returns withProperties ()
          withClauses ∧
        after = withClauses.linkReferences.reportAll := by
  simp only [analyze, returns_bind, returns_modify]
  constructor
  · rintro ⟨_, declared, declares, _, withMembers, members, _, _, rfl, _, withProperties, temporal,
      _, withClauses, criteria, _, _, rfl, same⟩
    exact ⟨declared, withMembers, withProperties, withClauses, declares, members, temporal,
      criteria, same⟩
  · rintro ⟨declared, withMembers, withProperties, withClauses, declares, members, temporal,
      criteria, same⟩
    exact ⟨(), declared, declares, (), withMembers, members, (), _, rfl, (), withProperties,
      temporal, (), withClauses, criteria, (), _, rfl, same⟩

/-- Every analysis that ends has declared, inferred and linked everything. -/
theorem returns_analyze {options : Options} {units : List CompilationUnit}
    (returns : analyze.Returns { options, units } () after) :
    ∃ (analysed : Workspace) (recorded : List RecordedDeclaration)
      (fragments : List CompilationUnit),
      analysed.Analysed units recorded fragments ∧ after = analysed.reportAll := by
  obtain ⟨declared, withMembers, withProperties, withClauses, declares, members, temporal,
    criteria, rfl⟩ := returns_analyze_iff.mp returns
  obtain ⟨recorded, declaredLinked, grows⟩ := linked_linkDeclarations declares members
  obtain ⟨fragments, infers⟩ := returns_optionally_inferTemporalProperties temporal
  have adds := returns_optionally_inferServiceCriteria criteria
  have sameUnits : withMembers.linkDeclarations.units = units := grows.units_eq
  rw [← sameUnits] at declaredLinked
  have inferred := adds.linked infers.units (infers.linked declaredLinked)
  rw [sameUnits] at inferred
  exact ⟨_, recorded, fragments, inferred.linkReferences, rfl⟩

end Phase
end DomainLang
