import DomainLang.Proofs.Findings
import DomainLang.Proofs.Findings.Reports

/-!
# What findings are about

A finding names a unit and a span. Every rule takes both from one record, which is a
declaration that was given, a property or a clause. Properties and clauses may be inferred, so
for them it also matters what is wrong. `Workspace.Grounded` says all this about a finding. A
rule about one record reports where the record stands; what is left are the rules that compare
records.
-/

namespace DomainLang

open Resolved

namespace Workspace

/-- What a finding about a property can find wrong. -/
inductive BlamesProperty (workspace : Workspace) (index : PropertyIndex) (finding : Finding) :
    Prop where
  | member (kind : finding.problem.kind = .duplicateMember)
  | details (reported : finding ∈ Uniqueness.property (workspace.program.properties.get index))
  | type (reported : finding ∈ Rules.unknownEnumeration
      (workspace.program.properties.get index).context.unit
      (workspace.program.properties.get index).declaration.type
      (workspace.program.properties.get index).enumeration)
  | rules (reported : finding ∈ Rules.propertyRules workspace index)
  | marked {modifier : Modifier}
      (has : (workspace.program.properties.get index).has modifier = true)
      (single : modifier ∈ [Modifier.id, .createdBy, .lastUpdatedBy, .version])
  | name (wrong : Naming.isMemberName (workspace.program.properties.get index).name.name = false)

/-- What a finding about a clause of a service can find wrong. -/
inductive BlamesClause (service : Service) (clause : Clause) (finding : Finding) : Prop where
  | again (member : clause ∈ repeated (·.kind) service.clauses)
  | refused (kind : clause.kind ∉ service.declaration.verb.allowedClauses)
  | criteria (reported : finding ∈ clause.criteria.elim [] (Rules.criteriaRules clause.unit))

/-- A finding is about something in the units that were given, about a property or about a
clause, and points there. -/
inductive Grounded (workspace : Workspace) (units : List CompilationUnit) (finding : Finding) :
    Prop where
  | given (written : WrittenIn units finding.unit [finding.span])
  | property {index : PropertyIndex} (holds : workspace.program.properties.Holds index)
      (unit : finding.unit = (workspace.program.properties.get index).context.unit)
      (span : finding.span ∈ (workspace.program.properties.get index).declaration.spans)
      (blames : workspace.BlamesProperty index finding)
  | clause {index : ServiceIndex} (holds : workspace.program.services.Holds index)
      {clause : Clause} (member : clause ∈ (workspace.program.services.get index).clauses)
      (unit : finding.unit = clause.unit) (span : finding.span ∈ clause.declaration.spans)
      (blames : BlamesClause (workspace.program.services.get index) clause finding)

variable {workspace : Workspace} {units : List CompilationUnit}
  {recorded : List RecordedDeclaration} {fragments : List CompilationUnit}

/-- What a rule reports about a record stands where the record does. -/
theorem grounded_of_reports {unit : UnitId} {spans : List Span} {kinds : List ProblemKind}
    {findings : List Finding} (written : WrittenIn units unit spans)
    (reports : Reports unit spans kinds findings) :
    ∀ finding ∈ findings, workspace.Grounded units finding := by
  intro finding member
  obtain ⟨inUnit, place, -⟩ := reports finding member
  rw [← inUnit] at written
  exact .given (written.of_mem place)

theorem grounded_property_of_reports {index : PropertyIndex}
    (holds : workspace.program.properties.Holds index) {spans : List Span}
    {kinds : List ProblemKind} {findings : List Finding}
    (reports : Reports (workspace.program.properties.get index).context.unit spans kinds findings)
    (inside : spans ⊆ (workspace.program.properties.get index).declaration.spans)
    (blames : ∀ finding ∈ findings, workspace.BlamesProperty index finding) :
    ∀ finding ∈ findings, workspace.Grounded units finding := by
  intro finding member
  obtain ⟨inUnit, place, -⟩ := reports finding member
  exact .property holds inUnit (inside place) (blames finding member)

/-- A finding at the name of a property. -/
theorem grounded_propertyName {index : PropertyIndex}
    (holds : workspace.program.properties.Holds index) {problem : Problem}
    (blames : workspace.BlamesProperty index
      ⟨problem, (workspace.program.properties.get index).context.unit,
        (workspace.program.properties.get index).name.span⟩) :
    workspace.Grounded units ⟨problem, (workspace.program.properties.get index).context.unit,
      (workspace.program.properties.get index).name.span⟩ :=
  .property holds rfl
    (by simp [Property.name, Syntax.Property.spans, Syntax.Identifier.spans]) blames

/-- A finding at the keyword of a clause. -/
theorem grounded_keyword {index : ServiceIndex}
    (holds : workspace.program.services.Holds index) {clause : Clause}
    (member : clause ∈ (workspace.program.services.get index).clauses) {problem : Problem}
    (blames : BlamesClause (workspace.program.services.get index) clause
      ⟨problem, clause.unit, clause.declaration.keywordSpan⟩) :
    workspace.Grounded units ⟨problem, clause.unit, clause.declaration.keywordSpan⟩ :=
  .clause holds member rfl (by simp [Syntax.Clause.spans]) blames

namespace Linked

variable (linked : workspace.Linked units recorded fragments) {index : ClassifierIndex}

include linked

/-- The name of a top-level element was written in its unit. -/
theorem written_name (index : TopLevelIndex) (holds : workspace.program.HoldsTopLevel index) :
    WrittenIn units (workspace.program.header index).unit
      [(workspace.program.header index).name.span] :=
  (linked.written_header holds).of_mem (by simp)

theorem written_signatureName {index : EndSignatureIndex}
    (holds : workspace.program.endSignatures.Holds index) :
    WrittenIn units (workspace.program.endSignatures.get index).context.unit
      [(workspace.program.endSignatures.get index).name.span] :=
  (linked.written_endSignature holds).of_mem
    (by simp [EndSignature.name, Syntax.EndSignature.spans, Syntax.Identifier.spans])

theorem written_endName {index : AssociationEndIndex}
    (holds : workspace.program.associationEnds.Holds index) :
    WrittenIn units (workspace.program.associationEnds.get index).context.unit
      [(workspace.program.associationEnds.get index).name.span] :=
  (linked.written_associationEnd holds).of_mem
    (by simp [AssociationEnd.name, Syntax.AssociationEnd.spans, Syntax.Identifier.spans])

theorem written_parameterName {index : ParameterIndex}
    (holds : workspace.program.parameters.Holds index) :
    WrittenIn units (workspace.program.parameters.get index).context.unit
      [(workspace.program.parameters.get index).name.span] :=
  (linked.written_parameter holds).of_mem
    (by simp [Parameter.name, Syntax.Parameter.spans, Syntax.Identifier.spans])

/-- The properties that a classifier lists have records. -/
theorem holds_property (index : ClassifierIndex)
    (holds : workspace.program.HoldsClassifier index) {property : PropertyIndex}
    (member : property ∈ (workspace.program.classifier index).properties) :
    workspace.program.properties.Holds property :=
  ((linked.coherent.properties.mem_listed holds id).mp member).1

/-- The ends that a class lists have records. -/
theorem holds_associationEnd {index : ClassIndex}
    (holds : workspace.program.classes.Holds index) {associationEnd : AssociationEndIndex}
    (member : associationEnd ∈ (workspace.program.classes.get index).associationEnds) :
    workspace.program.associationEnds.Holds associationEnd := by
  rw [linked.declarations.classEnds index holds, Arena.mem_select] at member
  exact member.1

/-- The properties that are found among those of a classifier by a modifier. -/
theorem exists_marked (index : ClassifierIndex)
    (holds : workspace.program.HoldsClassifier index) {modifier : Modifier} {record : Property}
    (member : record ∈ ((workspace.program.classifier index).properties.map
      workspace.program.properties.get).filter (·.has modifier)) :
    ∃ property, workspace.program.properties.Holds property ∧
      record = workspace.program.properties.get property ∧ record.has modifier = true := by
  obtain ⟨among, has⟩ := List.mem_filter.mp member
  obtain ⟨listed, isListed, rfl⟩ := List.mem_map.mp among
  exact ⟨listed, linked.holds_property index holds isListed, rfl, has⟩

section Uniqueness

/-- Repeated top-level names stand where they are reported. -/
theorem grounded_topLevelNames :
    ∀ finding ∈ Uniqueness.topLevelNames workspace, workspace.Grounded units finding := by
  rw [Uniqueness.topLevelNames, List.forall_mem_map]
  intro index member
  exact .given (linked.written_name index (Program.mem_topLevel.mp (List.mem_of_mem_filter member)))

theorem grounded_userClasses :
    ∀ finding ∈ Uniqueness.userClasses workspace.program, workspace.Grounded units finding := by
  rw [Uniqueness.userClasses]
  split
  · exact List.forall_mem_nil _
  · rw [List.forall_mem_map]
    intro user member
    obtain ⟨index, holds, rfl⟩ := Arena.mem_records.mp (List.mem_of_mem_filter member)
    exact .given (linked.written_name (.klass index) holds)

/-- Repeated members stand where they are reported. -/
theorem grounded_members (holds : workspace.program.HoldsClassifier index) :
    ∀ finding ∈ Uniqueness.members workspace.program index, workspace.Grounded units finding := by
  rw [Uniqueness.members, List.forall_mem_map]
  intro entry again
  have member := List.mem_of_mem_filter again
  simp only [Uniqueness.memberNames, List.mem_append, List.mem_map] at member
  rcases member with (⟨property, listed, rfl⟩ | ⟨signature, listed, rfl⟩) | isEnd
  · exact grounded_propertyName (linked.holds_property index holds listed) (.member rfl)
  · exact .given (linked.written_signatureName 
      ((linked.coherent.endSignatures.mem_listed holds id).mp listed).1)
  · cases index with
    | interface index => cases isEnd
    | klass index =>
      obtain ⟨associationEnd, listed, rfl⟩ := List.mem_map.mp isEnd
      exact .given (linked.written_endName (linked.holds_associationEnd holds listed))

/-- Properties that share a modifier are reported at their names. -/
theorem grounded_markedProperties (holds : workspace.program.HoldsClassifier index)
    {modifier : Modifier}
    (single : modifier ∈ [Modifier.id, .createdBy, .lastUpdatedBy, .version]) :
    ∀ finding ∈ Uniqueness.markedProperties workspace.program
      (workspace.program.classifier index) modifier, workspace.Grounded units finding := by
  rw [Uniqueness.markedProperties]
  split
  · exact List.forall_mem_nil _
  · rw [List.forall_mem_map]
    intro record member
    obtain ⟨property, held, rfl, has⟩ := linked.exists_marked index holds member
    exact grounded_propertyName held (.marked has single)

theorem grounded_versionMembers {index : ClassIndex}
    (holds : workspace.program.classes.Holds index) :
    ∀ finding ∈ Uniqueness.versionMembers workspace.program
      (workspace.program.classes.get index), workspace.Grounded units finding := by
  -- Each sort holds names of properties of the class or of ends that it owns.
  have ofEnds (modifier : Modifier) : ∀ entry ∈
      (((workspace.program.classes.get index).associationEnds.map
        workspace.program.associationEnds.get).filter (·.has modifier)).map
          fun associationEnd => (associationEnd.context.unit, associationEnd.name),
      WrittenIn units entry.1 [entry.2.span] := by
    intro entry member
    obtain ⟨associationEnd, filtered, rfl⟩ := List.mem_map.mp member
    obtain ⟨listed, isListed, rfl⟩ := List.mem_map.mp (List.mem_of_mem_filter filtered)
    exact linked.written_endName (linked.holds_associationEnd holds isListed)
  simp only [Uniqueness.versionMembers, List.forall_mem_flatMap, List.forall_mem_map,
    List.mem_filter, List.mem_cons, List.not_mem_nil, or_false]
  rintro sort ⟨rfl | rfl | rfl, -⟩ entry member
  · obtain ⟨record, filtered, rfl⟩ := List.mem_map.mp member
    obtain ⟨property, held, rfl, has⟩ := linked.exists_marked (.klass index) holds filtered
    exact grounded_propertyName held (.marked has (by decide))
  · exact .given (ofEnds .version entry member)
  · exact .given (ofEnds .versioned entry member)

theorem grounded_classifier (holds : workspace.program.HoldsClassifier index) :
    ∀ finding ∈ Uniqueness.classifier workspace.program index,
      workspace.Grounded units finding := by
  have written := linked.written_classifier holds
  simp only [Uniqueness.classifier, List.forall_mem_append]
  refine ⟨⟨⟨⟨linked.grounded_members holds, ?_⟩, ?_⟩, ?_⟩, ?_⟩
  · exact grounded_of_reports (written.mono (List.subset_append_right ..))
      Uniqueness.reports_modifiers
  · exact grounded_of_reports (written.mono (List.subset_append_left ..))
      (Uniqueness.reports_interfaces _)
  · rw [List.forall_mem_flatMap]
    intro modifier among
    exact linked.grounded_markedProperties holds (List.mem_append_left [Modifier.version] among)
  · cases index with
    | interface index => exact List.forall_mem_nil _
    | klass index => exact linked.grounded_versionMembers holds

/-- Repeated details of members stand within the member. -/
theorem grounded_memberDetails :
    ∀ finding ∈ Uniqueness.memberDetails workspace.program,
      workspace.Grounded units finding := by
  simp only [Uniqueness.memberDetails, List.forall_mem_append, List.forall_mem_flatMap]
  refine ⟨⟨?_, ?_⟩, ?_⟩ <;> intro record member <;>
    obtain ⟨index, holds, rfl⟩ := Arena.mem_records.mp member
  · exact grounded_property_of_reports holds (Uniqueness.reports_property _) (List.Subset.refl _)
      fun _ => .details
  · exact grounded_of_reports ((linked.written_endSignature holds).mono
      (List.subset_append_right ..)) Uniqueness.reports_modifiers
  · refine grounded_of_reports ((linked.written_associationEnd holds).mono fun span => ?_)
      Uniqueness.reports_modifiers
    simp only [Syntax.AssociationEnd.spans, List.mem_append]
    tauto

theorem grounded_groupClasses :
    ∀ finding ∈ Uniqueness.groupClasses workspace, workspace.Grounded units finding := by
  rw [Uniqueness.groupClasses, List.forall_mem_map]
  intro group again
  obtain ⟨index, holds, rfl⟩ :=
    Arena.mem_records.mp (List.mem_of_mem_filter (List.mem_of_mem_filter again))
  exact .given (linked.written_serviceGroup holds)

/-- The urls that a service group lists belong to it. -/
theorem holds_url {index : ServiceGroupIndex}
    (holds : workspace.program.serviceGroups.Holds index) {url : UrlIndex}
    (member : url ∈ (workspace.program.serviceGroups.get index).urls) :
    workspace.program.urls.Holds url ∧ (workspace.program.urls.get url).group = index :=
  (linked.coherent.urls.mem_listed holds (by simp)).mp member

theorem holds_service {url : UrlIndex} (holds : workspace.program.urls.Holds url)
    {service : ServiceIndex} (member : service ∈ (workspace.program.urls.get url).services) :
    workspace.program.services.Holds service :=
  ((linked.coherent.services.mem_listed holds (by simp)).mp member).1

theorem grounded_parameters {index : UrlIndex} (holds : workspace.program.urls.Holds index) :
    ∀ finding ∈ Uniqueness.parameters workspace.program (workspace.program.urls.get index),
      workspace.Grounded units finding := by
  rw [Uniqueness.parameters, List.forall_mem_map]
  intro record again
  obtain ⟨parameter, isListed, rfl⟩ := List.mem_map.mp (List.mem_of_mem_filter again)
  exact .given (linked.written_parameterName
    ((linked.coherent.parameters.mem_listed holds (by simp)).mp isListed).1)

omit linked in
theorem grounded_clauses {index : ServiceIndex}
    (holds : workspace.program.services.Holds index) :
    ∀ finding ∈ Uniqueness.clauses (workspace.program.services.get index),
      workspace.Grounded units finding := by
  rw [Uniqueness.clauses, List.forall_mem_map]
  intro clause again
  exact grounded_keyword holds (List.mem_of_mem_filter again) (.again again)

theorem grounded_group {index : ServiceGroupIndex}
    (holds : workspace.program.serviceGroups.Holds index) :
    ∀ finding ∈ Uniqueness.group workspace.program (workspace.program.serviceGroups.get index),
      workspace.Grounded units finding := by
  simp only [Uniqueness.group, List.forall_mem_append, List.forall_mem_flatMap,
    List.forall_mem_map]
  constructor
  · intro record again
    obtain ⟨url, listed, rfl⟩ := List.mem_map.mp (List.mem_of_mem_filter again)
    obtain ⟨held, inGroup⟩ := linked.holds_url holds listed
    have written := linked.written_url held
    rw [Program.requestUnit, inGroup] at written
    exact .given (written.of_mem (by simp [Syntax.Url.spans, Syntax.Node.spans]))
  · intro url listed
    have held := (linked.holds_url holds listed).1
    exact ⟨linked.grounded_parameters held, fun service among =>
      grounded_clauses (linked.holds_service held among)⟩

end Uniqueness

section Naming

/-- Only units that were given have a tree. -/
theorem grounded_packages :
    ∀ finding ∈ Naming.packages workspace.units, workspace.Grounded units finding := by
  rw [Naming.packages, List.forall_mem_flatMap]
  intro unit member
  split
  · exact List.forall_mem_nil _
  · next tree isTree =>
    split
    · exact List.forall_mem_nil _
    · obtain ⟨more, allUnits, each⟩ := linked.units_eq
      rw [allUnits, List.mem_append, List.mem_append] at member
      rcases member with (isGiven | isTemporal) | late
      · refine List.forall_mem_singleton.mpr (.given ⟨unit, isGiven, rfl, ?_⟩)
        cases body : unit.body with
        | tree tree =>
          obtain rfl : tree = _ := by simpa [CompilationUnit.tree?, body] using isTree
          simp [CompilationUnit.spans, body, Syntax.SourceTree.spans, Syntax.Node.spans]
        | members owner members => simp [CompilationUnit.tree?, body] at isTree
        | clauses service clauses => simp [CompilationUnit.tree?, body] at isTree
      · obtain ⟨_, _, body, -⟩ := linked.expands unit isTemporal
        simp [CompilationUnit.tree?, body] at isTree
      · obtain ⟨_, _, body, -⟩ := each unit late
        simp [CompilationUnit.tree?, body] at isTree

theorem grounded_topLevel :
    ∀ finding ∈ Naming.topLevel workspace.program, workspace.Grounded units finding := by
  rw [Naming.topLevel, List.forall_mem_map]
  intro index member
  exact .given (linked.written_name index (Program.mem_topLevel.mp (List.mem_of_mem_filter member)))

/-- The findings about names have a place. -/
theorem grounded_naming :
    ∀ finding ∈ Naming.findings workspace, workspace.Grounded units finding := by
  simp only [Naming.findings, Naming.memberNames, List.forall_mem_append, List.forall_mem_map,
    List.filter_append]
  refine ⟨⟨⟨linked.grounded_packages, linked.grounded_topLevel⟩, ?_, ?_⟩, ?_, ?_⟩ <;>
    intro entry member <;>
    obtain ⟨among, wrong⟩ := List.mem_filter.mp member <;>
    obtain ⟨record, isRecord, rfl⟩ := List.mem_map.mp among <;>
    obtain ⟨index, holds, rfl⟩ := Arena.mem_records.mp isRecord
  · exact grounded_propertyName holds (.name (by simpa using wrong))
  · exact .given (linked.written_parameterName holds)
  · exact .given (linked.written_signatureName holds)
  · exact .given (linked.written_endName holds)

end Naming

section Rules

theorem grounded_classes :
    ∀ finding ∈ Rules.classes workspace.program, workspace.Grounded units finding := by
  rw [Rules.classes, List.forall_mem_flatMap]
  intro index member
  have holds := Arena.mem_indices.mp member
  have others : ∀ finding ∈ _, workspace.Grounded units finding :=
    grounded_of_reports (linked.written_name (.klass index) holds)
      (Rules.reports_keysAndVersions workspace.program (workspace.program.classes.get index)
        ((workspace.program.allProperties (.klass index)).map workspace.program.properties.get))
  simp only [List.forall_mem_append] at others
  simp only [Rules.classRules, List.forall_mem_append]
  refine ⟨⟨others.1, ?_⟩, others.2⟩
  rw [Rules.transientIds]
  split
  · rw [List.forall_mem_map]
    intro record filtered
    obtain ⟨property, held, rfl, has⟩ := linked.exists_marked (.klass index) holds filtered
    exact grounded_propertyName held (.marked has (by decide))
  · exact List.forall_mem_nil _

theorem grounded_inheritanceOf (holds : workspace.program.HoldsClassifier index) :
    ∀ finding ∈ Rules.inheritanceOf workspace index, workspace.Grounded units finding := by
  simp only [Rules.inheritanceOf, List.forall_mem_append, List.forall_mem_flatMap]
  refine ⟨⟨?_, ?_⟩, ?_⟩
  · rintro ⟨name, resolution⟩ member
    refine grounded_of_reports ((linked.written_classifier holds).mono fun span inName => ?_)
      Rules.reports_implementedInterface
    exact List.mem_append_left _ (List.mem_flatMap_of_mem (List.of_mem_zip member).1 inName)
  · cases index with
    | klass index => exact List.forall_mem_nil _
    | interface index =>
      exact grounded_of_reports (linked.written_name (.interface index) holds)
        (Rules.reports_interfaceCycle _ _)
  · cases index with
    | klass index =>
      exact grounded_of_reports (linked.written_superclass holds) (Rules.reports_superclass _ _)
    | interface index => exact List.forall_mem_nil _

theorem grounded_memberTypes :
    ∀ finding ∈ Rules.memberTypes workspace.program, workspace.Grounded units finding := by
  simp only [Rules.memberTypes, List.forall_mem_append, List.forall_mem_flatMap]
  refine ⟨⟨⟨⟨?_, ?_⟩, ?_⟩, ?_⟩, ?_⟩ <;> intro record member <;>
    obtain ⟨index, holds, rfl⟩ := Arena.mem_records.mp member
  · refine grounded_property_of_reports holds Rules.reports_unknownEnumeration (fun span => ?_)
      fun _ => .type
    simp only [Syntax.Property.spans, List.mem_append]
    tauto
  · exact grounded_of_reports ((linked.written_parameter holds).mono
      (List.subset_append_right ..)) Rules.reports_unknownEnumeration
  · refine grounded_of_reports ((linked.written_endSignature holds).mono fun span => ?_)
      (.ite Rules.reports_unknownType .nil)
    simp only [Syntax.EndSignature.spans, List.mem_append]
    tauto
  · refine grounded_of_reports ((linked.written_associationEnd holds).mono fun span => ?_)
      (.ite Rules.reports_unknownType .nil)
    simp only [Syntax.AssociationEnd.spans, List.mem_append]
    tauto
  · exact grounded_of_reports ((linked.written_projection holds).mono
      (List.subset_append_left ..)) (.ite Rules.reports_unknownType .nil)

/-- The findings about inheritance have a place. -/
theorem grounded_inheritance :
    ∀ finding ∈ Rules.inheritance workspace, workspace.Grounded units finding := by
  rw [Rules.inheritance, List.forall_mem_append, List.forall_mem_flatMap]
  exact ⟨fun index member => linked.grounded_inheritanceOf (Program.mem_classifiers.mp member),
    linked.grounded_memberTypes⟩

omit linked in
theorem grounded_properties :
    ∀ finding ∈ Rules.properties workspace, workspace.Grounded units finding := by
  rw [Rules.properties, List.forall_mem_flatMap]
  intro index member
  exact grounded_property_of_reports (Arena.mem_indices.mp member)
    (Rules.reports_propertyRules workspace index) (List.Subset.refl _) fun _ => .rules

theorem grounded_services :
    ∀ finding ∈ Rules.services workspace, workspace.Grounded units finding := by
  rw [Rules.services, List.forall_mem_flatMap]
  intro group member
  obtain ⟨index, holds, rfl⟩ := Arena.mem_records.mp member
  simp only [Rules.groupRules, List.forall_mem_append, List.forall_mem_flatMap,
    List.forall_mem_map]
  refine ⟨⟨grounded_of_reports (linked.written_serviceGroup holds) Rules.reports_groupClass,
    grounded_of_reports (linked.written_name (.serviceGroup index) holds)
      (Rules.reports_emptyGroup _)⟩, ?_⟩
  intro url listed service isListed
  have held := linked.holds_service (linked.holds_url holds listed).1 isListed
  refine ⟨?_, grounded_of_reports (linked.written_service held) Rules.reports_serviceProjection⟩
  rw [Rules.clausesNotAllowed, List.forall_mem_map]
  intro clause filtered
  obtain ⟨among, refused⟩ := List.mem_filter.mp filtered
  exact grounded_keyword held among (.refused (by simpa using refused))

end Rules
end Linked

namespace Analysed

variable (analysed : workspace.Analysed units recorded fragments)

include analysed

theorem grounded_endOrdering {index : AssociationEndIndex}
    (holds : workspace.program.associationEnds.Holds index) :
    ∀ finding ∈ Rules.endOrdering (workspace.program.associationEnds.get index),
      workspace.Grounded units finding := by
  rw [Rules.endOrdering, analysed.references.endOrderings index holds]
  cases declared : (workspace.program.associationEnds.get index).declaration.orderBy with
  | none => exact List.forall_mem_nil _
  | some ordering =>
    have written : WrittenIn units
        (workspace.program.associationEnds.get index).context.unit ordering.spans := by
      refine (analysed.written_associationEnd holds).mono fun span inside => ?_
      simp [Syntax.AssociationEnd.spans, declared, inside]
    rw [Option.map_some, Option.elim_some, List.forall_mem_append]
    refine ⟨?_, grounded_of_reports written Rules.reports_orderByRules⟩
    split
    · exact List.forall_mem_singleton.mpr (.given (written.of_mem (List.mem_append_left _
        (List.mem_singleton_self _))))
    · exact List.forall_mem_nil _

theorem grounded_serviceCriteria {index : ServiceIndex}
    (holds : workspace.program.services.Holds index) :
    ∀ finding ∈ Rules.serviceCriteria (workspace.program.services.get index),
      workspace.Grounded units finding := by
  rw [Rules.serviceCriteria, List.forall_mem_append, List.forall_mem_flatMap]
  constructor
  · intro clause member finding reported
    have inside := reported
    rw [analysed.references.clauses index holds clause member, Option.elim_some] at inside
    obtain ⟨inUnit, place, -⟩ := Rules.reports_criteriaRules finding inside
    exact .clause holds member inUnit (List.mem_append_right _ place) (.criteria reported)
  · rw [analysed.references.serviceOrderings index holds]
    cases declared : (workspace.program.services.get index).declaration.orderBy with
    | none => exact List.forall_mem_nil _
    | some ordering =>
      refine grounded_of_reports ((analysed.written_service holds).mono fun span inside => ?_)
        Rules.reports_orderByRules
      simp [Syntax.Service.spans, declared, inside]

theorem grounded_foreignKeyRule {index : AssociationIndex}
    (holds : workspace.program.associations.Holds index) {key : ForeignKey}
    (member : key ∈ (workspace.program.associations.get index).foreignKeys) :
    ∀ finding ∈ Rules.foreignKeyRule workspace.program
      (workspace.program.associations.get index).header.unit key,
      workspace.Grounded units finding := by
  have paired := analysed.coherent.ends
  have held : workspace.program.associationEnds.Holds key.associationEnd := by
    rcases analysed.references.associationEnd_of_mem_foreignKeys holds member with same | same
    · rw [same]
      exact paired.holds_source holds
    · rw [same]
      exact paired.holds_target holds
  have ofAssociation := (paired.association_eq_iff holds held).mpr
    (analysed.references.associationEnd_of_mem_foreignKeys holds member)
  have written := analysed.written_associationEnd held
  rw [paired.units _ held, ofAssociation] at written
  exact grounded_of_reports
    (written.of_mem (by simp [Syntax.AssociationEnd.spans, Syntax.Node.spans]))
    Rules.reports_foreignKeyRule

/-- The findings about criteria, orderings and foreign keys have a place. -/
theorem grounded_criteria :
    ∀ finding ∈ Rules.criteria workspace.program, workspace.Grounded units finding := by
  simp only [Rules.criteria, List.forall_mem_append, List.forall_mem_flatMap]
  refine ⟨⟨⟨?_, ?_⟩, ?_⟩, ?_⟩ <;> intro record member <;>
    obtain ⟨index, holds, rfl⟩ := Arena.mem_records.mp member
  · rw [analysed.references.relationships index holds, Option.elim_some]
    exact grounded_of_reports (analysed.written_relationship holds) Rules.reports_criteriaRules
  · exact analysed.grounded_serviceCriteria holds
  · exact analysed.grounded_endOrdering holds
  · exact fun key => analysed.grounded_foreignKeyRule holds

/-- The names in a resolved projection stand in its unit. -/
theorem written_children {index : ProjectionIndex}
    (holds : workspace.program.projections.Holds index) :
    WrittenIn units (workspace.program.projections.get index).header.unit
      (ProjectionElement.allSpans (workspace.program.projections.get index).children) := by
  rw [analysed.references.children index holds]
  exact (analysed.written_projection holds).mono
    (List.Subset.trans (Program.spans_resolveElements ..) (List.subset_append_right ..))

theorem grounded_projections :
    ∀ finding ∈ Rules.projections workspace.program, workspace.Grounded units finding := by
  rw [Rules.projections, List.forall_mem_flatMap]
  intro projection member
  obtain ⟨index, holds, rfl⟩ := Arena.mem_records.mp member
  exact grounded_of_reports (analysed.written_children holds) Rules.reports_projectionRules

/-- The findings about repetitions have a place. -/
theorem grounded_uniqueness :
    ∀ finding ∈ Uniqueness.findings workspace, workspace.Grounded units finding := by
  simp only [Uniqueness.findings, List.forall_mem_append, List.forall_mem_flatMap]
  refine ⟨⟨⟨⟨⟨⟨⟨analysed.grounded_topLevelNames, analysed.grounded_userClasses⟩, ?_⟩,
    analysed.grounded_memberDetails⟩, ?_⟩, analysed.grounded_groupClasses⟩, ?_⟩, ?_⟩
  · intro index member
    exact analysed.grounded_classifier (Program.mem_classifiers.mp member)
  · intro enumeration member
    obtain ⟨index, holds, rfl⟩ := Arena.mem_records.mp member
    exact grounded_of_reports (analysed.written_enumeration holds) (Uniqueness.reports_literals _)
  · intro group member
    obtain ⟨index, holds, rfl⟩ := Arena.mem_records.mp member
    exact analysed.grounded_group holds
  · intro projection member
    obtain ⟨index, holds, rfl⟩ := Arena.mem_records.mp member
    exact grounded_of_reports (analysed.written_children holds) (Uniqueness.reports_elements _ _ _)

/-- Everything that is reported is about something that was given, a property or a clause. -/
theorem grounded_findings :
    ∀ finding ∈ workspace.findings, workspace.Grounded units finding := by
  simp only [Workspace.findings, Rules.findings, List.forall_mem_append]
  exact ⟨⟨analysed.grounded_uniqueness, analysed.grounded_naming⟩,
    ⟨⟨⟨⟨⟨analysed.grounded_classes, analysed.grounded_inheritance⟩, Linked.grounded_properties⟩,
      analysed.grounded_criteria⟩, analysed.grounded_projections⟩, analysed.grounded_services⟩⟩

/-- Everything that is reported points into the unit that it names. -/
theorem locates_findings :
    ∀ finding ∈ workspace.findings, workspace.Writes finding.unit [finding.span] := by
  intro finding member
  rcases analysed.grounded_findings finding member with
    written | ⟨holds, unit, span, -⟩ | ⟨holds, among, unit, span, -⟩
  · exact analysed.writes written
  · rw [unit]
    exact WrittenIn.of_mem (analysed.writes_property holds) span
  · rw [unit]
    exact WrittenIn.of_mem (analysed.writes_clause holds among) span

end Analysed
end Workspace
end DomainLang
