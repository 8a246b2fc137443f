import DomainLang.Proofs.Analysis

/-!
# The members of classifiers

All properties of a program are in one list, those written in source files before those that
were inferred. A classifier has the properties written in its declaration, in their order,
and then those of the fragments that expand it; its end signatures are those written.
-/

namespace DomainLang

open Resolved

variable {owner : ClassifierIndex} {entry : RecordedDeclaration}

/-- The property, for a member that is one. -/
def Syntax.Member.property? : Syntax.Member → Option Syntax.Property
  | property declaration => some declaration
  | endSignature _ => none

/-- The end signature, for a member that is one. -/
def Syntax.Member.endSignature? : Syntax.Member → Option Syntax.EndSignature
  | property _ => none
  | endSignature declaration => some declaration

/-- The properties of members are declared as they are written. -/
theorem map_declaration_properties (unit : CompilationUnit) (owner : ClassifierIndex)
    (inferred : Option Inference) (members : List Syntax.Member) :
    (members.filterMap (Property.ofMember? unit owner inferred)).map Property.declaration =
      members.filterMap Syntax.Member.property? := by
  rw [List.map_filterMap]
  congr 1
  funext member
  cases member <;> rfl

/-- Stripping members strips their properties. -/
theorem map_stripped_property? (members : List Syntax.Member) :
    (members.filterMap Syntax.Member.property?).map Syntax.Property.stripped =
      (members.map Syntax.Member.stripped).filterMap Syntax.Member.property? := by
  rw [List.map_filterMap, List.filterMap_map]
  congr 1
  funext member
  cases member <;> rfl

/-- The end signatures of members are declared as they are written. -/
theorem map_declaration_endSignatures (unit : CompilationUnit) (owner : ClassifierIndex)
    (members : List Syntax.Member) :
    (members.filterMap (EndSignature.ofMember? unit owner)).map EndSignature.declaration =
      members.filterMap Syntax.Member.endSignature? := by
  rw [List.map_filterMap]
  congr 1
  funext member
  cases member <;> rfl

theorem TopLevelIndex.toTopLevel_of_classifier? {index : TopLevelIndex}
    {classifier : ClassifierIndex} (isClassifier : index.classifier? = some classifier) :
    classifier.toTopLevel = index := by
  cases index <;> cases isClassifier <;> rfl

/-- A classifier has the header of its declaration. -/
theorem Program.header_of_classifier? {program : Program} {index : TopLevelIndex}
    {classifier : ClassifierIndex} (isClassifier : index.classifier? = some classifier) :
    program.header index = (program.classifier classifier).header := by
  cases index <;> cases isClassifier <;> rfl

theorem owner_of_mem_writtenProperties {property : Property}
    (member : property ∈ writtenProperties entry) : property.owner.toTopLevel = entry.2 := by
  obtain ⟨owner, members, declaration, isClassifier, -, -, rfl⟩ :=
    exists_of_mem_writtenProperties member
  exact TopLevelIndex.toTopLevel_of_classifier? isClassifier

theorem owner_of_mem_writtenSignatures {signature : EndSignature}
    (member : signature ∈ writtenSignatures entry) : signature.owner.toTopLevel = entry.2 := by
  obtain ⟨owner, members, declaration, isClassifier, -, -, rfl⟩ :=
    exists_of_mem_writtenSignatures member
  exact TopLevelIndex.toTopLevel_of_classifier? isClassifier

namespace CompilationUnit

/-- The members that a fragment adds to the declaration with a context. -/
def membersFor (unit : CompilationUnit) (anchor : ContextKey) : List Syntax.Member :=
  match unit.expansion, unit.body with
  | some expansion, .members _ members => if expansion.anchor = anchor then members else []
  | _, _ => []

end CompilationUnit

namespace Workspace.Linked

variable {workspace : Workspace} {units : List CompilationUnit}
  {recorded : List RecordedDeclaration} {fragments : List CompilationUnit}
  (linked : workspace.Linked units recorded fragments)
include linked

/-- A property is written in a declaration that has a record, or it stands in a fragment that
expands its owner. -/
theorem property_origin {index : PropertyIndex}
    (holds : workspace.program.properties.Holds index) :
    ((workspace.program.properties.get index).inferred = none ∧
      ∃ entry ∈ recorded,
        entry.1.1.id = (workspace.program.properties.get index).context.unit ∧
        ∃ members, entry.1.2.members? = some members ∧
          .property (workspace.program.properties.get index).declaration ∈ members) ∨
    ∃ fragment ∈ fragments,
      fragment.id = (workspace.program.properties.get index).context.unit ∧
      ∃ members, fragment.body =
          .members (workspace.program.properties.get index).owner members ∧
        .property (workspace.program.properties.get index).declaration ∈ members := by
  have member := List.mem_map_of_mem (f := Property.unlinked) (Arena.get_mem_records holds)
  rw [linked.properties, List.mem_map] at member
  obtain ⟨original, among, same⟩ := member
  generalize workspace.program.properties.get index = property at same ⊢
  cases property
  rcases List.mem_append.mp among with written | inferred
  · obtain ⟨entry, entryMember, ofEntry⟩ := List.mem_flatMap.mp written
    obtain ⟨owner, members, declaration, -, found, listed, rfl⟩ :=
      exists_of_mem_writtenProperties ofEntry
    cases same
    exact .inl ⟨rfl, entry, entryMember, rfl, members, found, listed⟩
  · obtain ⟨fragment, fragmentMember, ofFragment⟩ := List.mem_flatMap.mp inferred
    obtain ⟨owner, members, declaration, body, listed, rfl⟩ :=
      fragment.exists_of_mem_fragmentProperties ofFragment
    cases same
    exact .inr ⟨fragment, fragmentMember, rfl, members, body, listed⟩

/-- An end signature is written in a declaration that has a record. -/
theorem endSignature_origin {index : EndSignatureIndex}
    (holds : workspace.program.endSignatures.Holds index) :
    ∃ entry ∈ recorded,
      entry.1.1.id = (workspace.program.endSignatures.get index).context.unit ∧
      ∃ members, entry.1.2.members? = some members ∧
        .endSignature (workspace.program.endSignatures.get index).declaration ∈ members := by
  have member := List.mem_map_of_mem (f := EndSignature.unlinked) (Arena.get_mem_records holds)
  rw [linked.endSignatures, List.mem_map] at member
  obtain ⟨original, among, same⟩ := member
  generalize workspace.program.endSignatures.get index = signature at same ⊢
  cases signature
  obtain ⟨entry, entryMember, ofEntry⟩ := List.mem_flatMap.mp among
  obtain ⟨owner, members, declaration, -, found, listed, rfl⟩ :=
    exists_of_mem_writtenSignatures ofEntry
  cases same
  exact ⟨entry, entryMember, rfl, members, found, listed⟩

/-- No two declarations share their context. -/
theorem eq_of_context (first second : TopLevelIndex)
    (holdsFirst : workspace.program.HoldsTopLevel first)
    (holdsSecond : workspace.program.HoldsTopLevel second)
    (same : (workspace.program.header first).context =
      (workspace.program.header second).context) : first = second := by
  have registered {index : TopLevelIndex} (holds : workspace.program.HoldsTopLevel index) :
      ((workspace.program.header index).context, RecordIndex.topLevel index) ∈
        workspace.registry.contexts := by
    rw [← Program.mem_topLevelByKind, ← linked.records.all.mem_iff, List.mem_map] at holds
    obtain ⟨entry, member, rfl⟩ := holds
    obtain ⟨ordinal, describes⟩ := linked.records.describes_mem member
    rw [describes.header_eq]
    exact linked.records.contexts entry member
  have atFirst := Registry.lookup_of_mem linked.distinct (registered holdsFirst)
  have atSecond := Registry.lookup_of_mem linked.distinct (registered holdsSecond)
  rw [same, atSecond] at atFirst
  cases atFirst
  rfl

/-- What one declaration writes among all that is written can be told by the owner. -/
theorem filter_written {α : Type} {parts : RecordedDeclaration → List α}
    {ownerOf : α → ClassifierIndex}
    (own : ∀ entry ∈ recorded, ∀ part ∈ parts entry, (ownerOf part).toTopLevel = entry.2)
    (member : entry ∈ recorded) (isClassifier : entry.2.classifier? = some owner) :
    (recorded.flatMap parts).filter (fun part => ownerOf part = owner) = parts entry := by
  classical
  have distinct := linked.records.nodup
  have whole := filter_flatMap_of_owner (List.Nodup.of_map _ distinct) own
    (fun first isFirst second isSecond same =>
      List.inj_on_of_nodup_map distinct isFirst isSecond same) member
  rw [← whole]
  apply List.filter_congr
  intro part _
  rw [← TopLevelIndex.toTopLevel_of_classifier? isClassifier]
  have injective : (ownerOf part).toTopLevel = owner.toTopLevel ↔ ownerOf part = owner := by
    cases ownerOf part <;> cases owner <;> simp [ClassifierIndex.toTopLevel]
  simp [injective]

/-- A classifier lists the members written in its declaration before those of fragments. -/
theorem map_members {kind : RecordKind} {α : Type} [Inhabited α] {arena : Arena kind α}
    {ownerOf : α → ClassifierIndex} {listed : ClassifierIndex → List (Index kind)}
    (owned : Owned workspace.program.HoldsClassifier (fun _ => False) arena ownerOf listed)
    {unlinked : α → α} {parts : RecordedDeclaration → List α} {inferred : List α}
    (records : arena.records.map unlinked = (recorded.flatMap parts ++ inferred).map unlinked)
    (unseen : ∀ record, ownerOf (unlinked record) = ownerOf record)
    (own : ∀ entry ∈ recorded, ∀ part ∈ parts entry, (ownerOf part).toTopLevel = entry.2)
    (member : entry ∈ recorded) (isClassifier : entry.2.classifier? = some owner) :
    (listed owner).map (fun index => unlinked (arena.get index)) =
      (parts entry ++ inferred.filter (fun part => ownerOf part = owner)).map unlinked := by
  obtain ⟨ordinal, describes⟩ := linked.records.describes_mem member
  have holds := Program.holdsClassifier_of_classifier? isClassifier describes.holds
  have ofOwner := congrArg (List.filter fun record => ownerOf record = owner) records
  simp only [List.filter_map, Function.comp_def, unseen] at ofOwner
  calc (listed owner).map (fun index => unlinked (arena.get index))
      = ((arena.select fun record => ownerOf record = owner).map arena.get).map unlinked := by
        rw [owned.listed_eq owner holds id, List.map_map]
        rfl
    _ = (arena.records.filter fun record => ownerOf record = owner).map unlinked := by
        rw [Arena.map_get_select]
    _ = ((recorded.flatMap parts ++ inferred).filter fun record =>
          ownerOf record = owner).map unlinked := ofOwner
    _ = _ := by rw [List.filter_append, linked.filter_written own member isClassifier]

/-- A classifier has the properties written in its declaration and those of fragments. -/
theorem map_properties (member : entry ∈ recorded)
    (isClassifier : entry.2.classifier? = some owner) :
    (workspace.program.classifier owner).properties.map (fun property =>
        (workspace.program.properties.get property).unlinked) =
      (writtenProperties entry ++ (fragments.flatMap CompilationUnit.fragmentProperties).filter
        (·.owner = owner)).map Property.unlinked :=
  linked.map_members linked.coherent.properties linked.properties (fun _ => rfl)
    (fun _ _ _ => owner_of_mem_writtenProperties) member isClassifier

/-- A classifier has the end signatures written in its declaration. -/
theorem map_endSignatures (member : entry ∈ recorded)
    (isClassifier : entry.2.classifier? = some owner) :
    (workspace.program.classifier owner).endSignatures.map (fun signature =>
        (workspace.program.endSignatures.get signature).unlinked) =
      (writtenSignatures entry).map EndSignature.unlinked := by
  have records := linked.endSignatures
  rw [← List.append_nil (recorded.flatMap writtenSignatures)] at records
  rw [linked.map_members linked.coherent.endSignatures records (fun _ => rfl)
    (fun _ _ _ => owner_of_mem_writtenSignatures) member isClassifier, List.filter_nil,
    List.append_nil]

/-- The properties of a fragment for a classifier are those it adds to its declaration. -/
theorem map_fragmentProperties (holds : workspace.program.HoldsClassifier owner)
    {fragment : CompilationUnit} (expands : workspace.program.TemporalFragment fragment) :
    (fragment.fragmentProperties.filter (·.owner = owner)).map Property.declaration =
      (fragment.membersFor (workspace.program.classifier owner).header.context).filterMap
        Syntax.Member.property? := by
  obtain ⟨expanded, members, body, held, expansion, -, -⟩ := expands
  have owners : ∀ property ∈ members.filterMap (Property.ofMember? fragment expanded
      (some .temporalProperties)), property.owner = expanded := by
    intro property member
    obtain ⟨declaration, -, made⟩ := List.mem_filterMap.mp member
    cases declaration <;> cases made
    rfl
  rw [CompilationUnit.fragmentProperties, CompilationUnit.membersFor, body, expansion]
  dsimp only
  split
  · next same =>
    have equal : expanded = owner := by
      have headers (classifier : ClassifierIndex) :
          workspace.program.header classifier.toTopLevel =
            (workspace.program.classifier classifier).header :=
        Program.header_of_classifier? (by cases classifier <;> rfl)
      have top := linked.eq_of_context expanded.toTopLevel owner.toTopLevel
        (by cases expanded <;> exact held) (by cases owner <;> exact holds)
        (by rw [headers, headers]; exact same)
      cases expanded <;> cases owner <;> cases top <;> rfl
    rw [List.filter_eq_self.mpr (by simpa [equal] using owners), map_declaration_properties]
  · next different =>
    rw [List.filter_eq_nil_iff.mpr]
    · rfl
    · intro property member
      rw [owners property member, decide_eq_true_eq]
      rintro rfl
      exact different rfl

end Workspace.Linked
end DomainLang
