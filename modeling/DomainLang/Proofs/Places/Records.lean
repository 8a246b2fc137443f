import DomainLang.Proofs.Members

/-!
# Where records stand

Every record is made from syntax of one unit, and remembers that unit. `WrittenIn` says that
spans are spans of the unit with some id. Here it is shown for what each kind of record keeps
of its declaration, which is written in one of the units that were given. Only properties and
clauses may be inferred; those are written in some unit of the workspace.
-/

namespace DomainLang

open Resolved

/-- The spans of what a unit holds. -/
def CompilationUnit.spans (unit : CompilationUnit) : List Span :=
  match unit.body with
  | .tree tree => tree.spans
  | .members _ members => members.flatMap Syntax.Member.spans
  | .clauses _ clauses => clauses.flatMap Syntax.Clause.spans

/-- A declaration lies in its unit. -/
theorem CompilationUnit.spans_subset_of_mem {unit : CompilationUnit} {element : Syntax.Declaration}
    (member : element ∈ unit.elements) : element.spans ⊆ unit.spans := by
  cases body : unit.body with
  | tree tree =>
    have elements : unit.elements = tree.elements := by simp [elements, tree?, body]
    rw [elements] at member
    rw [spans, body]
    exact List.Subset.trans (subset_flatMap_of_mem member) (List.subset_append_right ..)
  | members owner members => simp [elements, tree?, body] at member
  | clauses service clauses => simp [elements, tree?, body] at member

namespace Syntax

/-- The places that a header keeps are among those of the declaration. -/
theorem Declaration.head_subset_spans (declaration : Declaration) :
    [declaration.node.span, declaration.name.span] ⊆ declaration.spans := by
  cases declaration <;>
    simp [node, name, spans, Enumeration.spans, Interface.spans, Class.spans, Association.spans,
      Projection.spans, ServiceGroup.spans, Node.spans, Identifier.spans]

/-- A member lies in its declaration. -/
theorem Declaration.member_subset_spans {declaration : Declaration} {members : List Member}
    (found : declaration.members? = some members) {member : Member} (among : member ∈ members) :
    member.spans ⊆ declaration.spans := by
  have whole : member.spans ⊆ members.flatMap Member.spans := subset_flatMap_of_mem among
  cases declaration with
  | interface declaration =>
    cases found
    exact List.Subset.trans whole (List.subset_append_right ..)
  | klass declaration =>
    cases found
    exact List.Subset.trans whole (List.subset_append_right ..)
  | _ => cases found

/-- A parameter lies in its url. -/
theorem Url.parameter_subset_spans {url : Url} {parameter : Parameter}
    (member : parameter ∈ url.parameters) : parameter.spans ⊆ url.spans := by
  rw [Url.parameters_eq, List.mem_append, List.mem_flatMap] at member
  intro span inside
  simp only [spans, List.mem_append, List.mem_flatMap]
  rcases member with ⟨segment, among, declared⟩ | query
  · cases segment with
    | constant name => cases declared
    | parameter declaration =>
      rw [UrlSegment.parameters, List.mem_singleton] at declared
      exact .inl (.inl (.inr ⟨_, among, declared ▸ inside⟩))
  · exact .inl (.inr ⟨parameter, query, inside⟩)

end Syntax

/-- Spans are among those of one of the units, which has an id. -/
def WrittenIn (units : List CompilationUnit) (id : UnitId) (spans : List Span) : Prop :=
  ∃ unit ∈ units, unit.id = id ∧ spans ⊆ unit.spans

theorem WrittenIn.mono {units : List CompilationUnit} {id : UnitId} {spans fewer : List Span}
    (written : WrittenIn units id spans) (subset : fewer ⊆ spans) : WrittenIn units id fewer := by
  obtain ⟨unit, member, same, all⟩ := written
  exact ⟨unit, member, same, List.Subset.trans subset all⟩

theorem WrittenIn.of_mem {units : List CompilationUnit} {id : UnitId} {spans : List Span}
    (written : WrittenIn units id spans) {span : Span} (member : span ∈ spans) :
    WrittenIn units id [span] :=
  written.mono (by simpa using member)

namespace Workspace

/-- Spans are among those of the unit with an id. -/
def Writes (workspace : Workspace) (id : UnitId) (spans : List Span) : Prop :=
  ∃ unit ∈ workspace.units, unit.id = id ∧ spans ⊆ unit.spans

variable {workspace : Workspace} {units : List CompilationUnit}
  {recorded : List RecordedDeclaration} {fragments : List CompilationUnit}

namespace Linked

variable (linked : workspace.Linked units recorded fragments)

include linked

/-- The units that were given are still there. -/
theorem writes {id : UnitId} {spans : List Span} (written : WrittenIn units id spans) :
    workspace.Writes id spans := by
  obtain ⟨unit, member, inside⟩ := written
  obtain ⟨more, allUnits, -⟩ := linked.units_eq
  exact ⟨unit, by simp [allUnits, member], inside⟩

/-- A declaration that has a record is written in its unit. -/
theorem written_recorded {entry : RecordedDeclaration} (member : entry ∈ recorded) :
    WrittenIn units entry.1.1.id entry.1.2.spans := by
  have source : entry.1 ∈ declarationsOf units := by
    rw [← linked.written]
    exact List.mem_map_of_mem member
  obtain ⟨unit, unitMember, inUnit⟩ := List.mem_flatMap.mp source
  obtain ⟨element, among, same⟩ := List.mem_map.mp inUnit
  rw [← same]
  exact ⟨unit, unitMember, rfl, CompilationUnit.spans_subset_of_mem among⟩

/-- The record of a declaration holds what is written in its unit. -/
theorem written_topLevel (index : TopLevelIndex)
    (holds : workspace.program.HoldsTopLevel index) :
    ∃ header element, workspace.program.Describes header element index ∧
      header.name = element.name ∧ header.span = element.node.span ∧
      WrittenIn units header.unit element.spans := by
  have member : index ∈ recorded.map Prod.snd :=
    linked.records.all.mem_iff.mpr (Program.mem_topLevelByKind.mpr holds)
  obtain ⟨entry, entryMember, rfl⟩ := List.mem_map.mp member
  obtain ⟨ordinal, describes⟩ := linked.records.describes_mem entryMember
  exact ⟨_, _, describes, rfl, rfl, linked.written_recorded entryMember⟩

theorem written_header {index : TopLevelIndex} (holds : workspace.program.HoldsTopLevel index) :
    WrittenIn units (workspace.program.header index).unit
      [(workspace.program.header index).span, (workspace.program.header index).name.span] := by
  obtain ⟨header, element, describes, name, span, writes⟩ := linked.written_topLevel index holds
  rw [describes.header_eq, name, span]
  exact writes.mono element.head_subset_spans

theorem written_enumeration {index : EnumerationIndex}
    (holds : workspace.program.enumerations.Holds index) :
    WrittenIn units (workspace.program.enumerations.get index).header.unit
      ((workspace.program.enumerations.get index).literals.flatMap
        Syntax.EnumerationLiteral.spans) := by
  obtain ⟨header, element, describes, -, -, writes⟩ :=
    linked.written_topLevel (.enumeration index) holds
  cases describes with
  | enumeration _ written =>
    rw [written]
    exact writes.mono (List.subset_append_right ..)

theorem written_classifier {index : ClassifierIndex}
    (holds : workspace.program.HoldsClassifier index) :
    WrittenIn units (workspace.program.classifier index).header.unit
      ((workspace.program.classifier index).declaredInterfaces.flatMap Syntax.Identifier.spans ++
        (workspace.program.classifier index).modifiers.flatMap Syntax.ModifierMark.spans) := by
  cases index with
  | interface index =>
    obtain ⟨header, element, describes, -, -, writes⟩ :=
      linked.written_topLevel (.interface index) holds
    cases describes with
    | interface _ written =>
      have unit := congrArg (fun record : Classifier => record.header.unit) written
      have modifiers := congrArg Classifier.modifiers written
      have interfaces := congrArg Classifier.declaredInterfaces written
      simp only [Classifier.written, Classifier.unlinked] at unit modifiers interfaces
      simp only [Program.classifier, unit, modifiers, interfaces]
      refine writes.mono fun span => ?_
      simp only [Syntax.Declaration.spans, Syntax.Interface.spans, List.mem_append]
      tauto
  | klass index =>
    obtain ⟨header, element, describes, -, -, writes⟩ :=
      linked.written_topLevel (.klass index) holds
    cases describes with
    | klass _ written =>
      have unit := congrArg (fun record : Resolved.Class => record.header.unit) written
      have modifiers := congrArg (fun record : Resolved.Class => record.modifiers) written
      have interfaces := congrArg (fun record : Resolved.Class => record.declaredInterfaces) written
      simp only [Class.written, Classifier.written, Classifier.unlinked]
        at unit modifiers interfaces
      simp only [Program.classifier, unit, modifiers, interfaces]
      refine writes.mono fun span => ?_
      simp only [Syntax.Declaration.spans, Syntax.Class.spans, List.mem_append]
      tauto

theorem written_superclass {index : ClassIndex} (holds : workspace.program.classes.Holds index) :
    WrittenIn units (workspace.program.classes.get index).header.unit
      ((workspace.program.classes.get index).declaredSuperclass.toList.flatMap
        Syntax.Identifier.spans) := by
  obtain ⟨header, element, describes, -, -, writes⟩ :=
    linked.written_topLevel (.klass index) holds
  cases describes with
  | klass _ written =>
    have unit := congrArg (fun record : Resolved.Class => record.header.unit) written
    have superclass := congrArg Class.declaredSuperclass written
    simp only [Class.written, Class.unlinked, Classifier.written, Classifier.unlinked]
      at unit superclass
    simp only [unit, superclass]
    refine writes.mono fun span => ?_
    simp only [Syntax.Declaration.spans, Syntax.Class.spans, List.mem_append]
    tauto

theorem written_relationship {index : AssociationIndex}
    (holds : workspace.program.associations.Holds index) :
    WrittenIn units (workspace.program.associations.get index).header.unit
      (workspace.program.associations.get index).declaredRelationship.spans := by
  obtain ⟨header, element, describes, -, -, writes⟩ :=
    linked.written_topLevel (.association index) holds
  cases describes with
  | association _ written _ _ _ _ =>
    have unit := congrArg (fun record : Association => record.header.unit) written
    have relationship := congrArg Association.declaredRelationship written
    simp only [Association.unlinked] at unit relationship
    rw [unit, relationship]
    exact writes.mono (List.subset_append_right ..)

theorem written_associationEnd {index : AssociationEndIndex}
    (holds : workspace.program.associationEnds.Holds index) :
    WrittenIn units (workspace.program.associationEnds.get index).context.unit
      (workspace.program.associationEnds.get index).declaration.spans := by
  have paired := linked.coherent.ends
  have held := paired.holds_association holds
  obtain ⟨header, element, describes, -, -, writes⟩ := linked.written_topLevel
    (.association (workspace.program.associationEnds.get index).association) held
  rw [paired.units index holds]
  cases describes with
  | association _ written _ ofSource _ ofTarget =>
    have unit := congrArg (fun record : Association => record.header.unit) written
    have source := congrArg Association.source written
    have target := congrArg Association.target written
    simp only [Association.unlinked] at unit source target
    rw [unit]
    refine writes.mono fun span => ?_
    simp only [Syntax.Declaration.spans, Syntax.Association.spans, List.mem_append]
    rcases (paired.association_eq_iff held holds).mp rfl with isSource | isTarget
    · rw [isSource, source, ofSource]
      tauto
    · rw [isTarget, target, ofTarget]
      tauto

theorem written_projection {index : ProjectionIndex}
    (holds : workspace.program.projections.Holds index) :
    WrittenIn units (workspace.program.projections.get index).header.unit
      ((workspace.program.projections.get index).classifierName.spans ++
        Syntax.ProjectionElement.allSpans
          (workspace.program.projections.get index).declaredChildren) := by
  obtain ⟨header, element, describes, -, -, writes⟩ :=
    linked.written_topLevel (.projection index) holds
  cases describes with
  | projection _ written =>
    have unit := congrArg (fun record : Projection => record.header.unit) written
    have name := congrArg Projection.classifierName written
    have children := congrArg Projection.declaredChildren written
    simp only [Projection.unlinked] at unit name children
    rw [unit, name, children]
    refine writes.mono fun span => ?_
    simp only [Syntax.Declaration.spans, Syntax.Projection.spans, List.mem_append]
    tauto

theorem written_serviceGroup {index : ServiceGroupIndex}
    (holds : workspace.program.serviceGroups.Holds index) :
    WrittenIn units (workspace.program.serviceGroups.get index).header.unit
      (workspace.program.serviceGroups.get index).className.spans := by
  obtain ⟨header, element, describes, -, -, writes⟩ :=
    linked.written_topLevel (.serviceGroup index) holds
  cases describes with
  | serviceGroup _ written _ _ =>
    have unit := congrArg (fun record : ServiceGroup => record.header.unit) written
    have name := congrArg ServiceGroup.className written
    simp only [ServiceGroup.unlinked] at unit name
    rw [unit, name]
    refine writes.mono fun span => ?_
    simp only [Syntax.Declaration.spans, Syntax.ServiceGroup.spans, List.mem_append]
    tauto

theorem written_url {index : UrlIndex} (holds : workspace.program.urls.Holds index) :
    WrittenIn units (workspace.program.requestUnit index)
      (workspace.program.urls.get index).declaration.spans := by
  have owned := linked.coherent.urls
  have held := owned.held_owner index holds
  have listed := (owned.mem_listed held (by simp)).mpr ⟨holds, rfl⟩
  obtain ⟨header, element, describes, -, -, writes⟩ := linked.written_topLevel
    (.serviceGroup (workspace.program.urls.get index).group) held
  rw [Program.requestUnit]
  cases describes with
  | serviceGroup _ written _ urlsWritten =>
    have unit := congrArg (fun record : ServiceGroup => record.header.unit) written
    have urls := congrArg ServiceGroup.urls written
    simp only [ServiceGroup.unlinked] at unit urls
    rw [urls] at listed
    rw [unit]
    have declared := List.mem_map_of_mem
      (f := fun url => (workspace.program.urls.get url).declaration) listed
    rw [urlsWritten] at declared
    exact writes.mono (List.Subset.trans (subset_flatMap_of_mem declared)
      (List.subset_append_right ..))

theorem written_parameter {index : ParameterIndex}
    (holds : workspace.program.parameters.Holds index) :
    WrittenIn units (workspace.program.parameters.get index).context.unit
      (workspace.program.parameters.get index).declaration.spans := by
  have owned := linked.coherent.parameters
  have held := owned.held_owner index holds
  have listed := (owned.mem_listed held (by simp)).mpr ⟨holds, rfl⟩
  have declared := List.mem_map_of_mem
    (f := fun parameter => (workspace.program.parameters.get parameter).declaration) listed
  rw [linked.coherent.parametersWritten _ held (by simp)] at declared
  rw [linked.coherent.parameterUnits index holds]
  exact (linked.written_url held).mono (Syntax.Url.parameter_subset_spans declared)

theorem written_service {index : ServiceIndex} (holds : workspace.program.services.Holds index) :
    WrittenIn units (workspace.program.services.get index).context.unit
      (workspace.program.services.get index).declaration.spans := by
  have owned := linked.coherent.services
  have held := owned.held_owner index holds
  have listed := (owned.mem_listed held (by simp)).mpr ⟨holds, rfl⟩
  have declared := List.mem_map_of_mem
    (f := fun service => (workspace.program.services.get service).declaration) listed
  rw [linked.coherent.servicesWritten _ held (by simp)] at declared
  rw [linked.coherent.serviceUnits index holds]
  exact (linked.written_url held).mono
    (List.Subset.trans (subset_flatMap_of_mem declared) (List.subset_append_right ..))

/-- A clause stands in the unit of its service, or in the fragment that added it. -/
theorem writes_clause {index : ServiceIndex} (holds : workspace.program.services.Holds index)
    {clause : Clause} (member : clause ∈ (workspace.program.services.get index).clauses) :
    workspace.Writes clause.unit clause.declaration.spans := by
  cases inferred : clause.inferred with
  | some inference =>
    obtain ⟨fragment, among, named, body⟩ :=
      linked.inferredClauses index holds clause member (by simp [inferred])
    refine ⟨fragment, among, named, ?_⟩
    simp [CompilationUnit.spans, body]
  | none =>
    obtain ⟨declared, unit⟩ := (linked.coherent.clauses index holds).of_not_inferred member inferred
    rw [unit]
    refine linked.writes ((linked.written_service holds).mono fun span inside => ?_)
    simp only [Syntax.Service.spans, List.mem_append, List.mem_flatMap]
    exact .inl (.inl (.inr ⟨_, declared, inside⟩))

/-- A property is written in its declaration, or in the fragment that added it. -/
theorem writes_property {index : PropertyIndex}
    (holds : workspace.program.properties.Holds index) :
    workspace.Writes (workspace.program.properties.get index).context.unit
      (workspace.program.properties.get index).declaration.spans := by
  rcases linked.property_origin holds with
    ⟨-, entry, entryMember, unit, members, found, among⟩ |
      ⟨fragment, fragmentMember, unit, members, body, among⟩
  · rw [← unit]
    exact linked.writes ((linked.written_recorded entryMember).mono
      (Syntax.Declaration.member_subset_spans found among))
  · obtain ⟨more, allUnits, -⟩ := linked.units_eq
    refine ⟨fragment, by simp [allUnits, fragmentMember], unit, ?_⟩
    rw [CompilationUnit.spans, body]
    exact fun _ inside => List.mem_flatMap.mpr ⟨_, among, inside⟩

theorem written_endSignature {index : EndSignatureIndex}
    (holds : workspace.program.endSignatures.Holds index) :
    WrittenIn units (workspace.program.endSignatures.get index).context.unit
      (workspace.program.endSignatures.get index).declaration.spans := by
  obtain ⟨entry, entryMember, unit, members, found, among⟩ := linked.endSignature_origin holds
  rw [← unit]
  exact (linked.written_recorded entryMember).mono
    (Syntax.Declaration.member_subset_spans found among)

end Linked
end Workspace
end DomainLang
