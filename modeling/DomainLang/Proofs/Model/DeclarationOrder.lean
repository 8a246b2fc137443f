import DomainLang.Proofs.Compilation
import DomainLang.Proofs.Model.StoredIds

/-!
# Models list their declarations in order

The declarations of all files, file by file, have the ordinals 0, 1, 2, …, and that is the order
in which a model lists its top-level elements. Each element is found under its own name and no
other name leads anywhere. The ids of a kind are given out in the same order.

The records of a program are kept kind by kind; sorting them by ordinal gives back the order of
the declarations (`Program.topLevel_eq`). A model numbers its records in that order and sorts
them once more for its index of names, which changes nothing (`AssembledFrom.names_eq`).
-/

namespace DomainLang

def Syntax.Declaration.kind : Declaration → RecordKind
  | .enumeration _ => .enumeration
  | .interface _ => .interface
  | .klass _ => .klass
  | .association _ => .association
  | .projection _ => .projection
  | .serviceGroup _ => .serviceGroup

def TopLevelIndex.kind : TopLevelIndex → RecordKind
  | .enumeration _ => .enumeration
  | .interface _ => .interface
  | .klass _ => .klass
  | .association _ => .association
  | .projection _ => .projection
  | .serviceGroup _ => .serviceGroup

namespace Model.TopLevelId

/-- The kind of an element. -/
def kind : TopLevelId → RecordKind
  | enumeration _ => .enumeration
  | interface _ => .interface
  | klass _ => .klass
  | association _ => .association
  | projection _ => .projection
  | serviceGroup _ => .serviceGroup

/-- The position of an element among those of its kind. -/
def value : TopLevelId → Nat
  | enumeration id => id.value
  | interface id => id.value
  | klass id => id.value
  | association id => id.value
  | projection id => id.value
  | serviceGroup id => id.value

end Model.TopLevelId

/-- A declaration of a file, by what does not depend on where it stands. -/
structure DeclarationTitle where
  kind : RecordKind
  name : String
  sourceName : String
  deriving DecidableEq, Repr

/-- The declarations of files, file by file. -/
def declarationTitles (trees : List (String × Syntax.SourceTree)) : List DeclarationTitle :=
  trees.flatMap fun entry => entry.2.elements.map fun element =>
    ⟨element.kind, element.name.name, entry.1⟩

namespace DomainModel

open Model

/-- What is declared by an element. -/
def title (model : DomainModel) (id : TopLevelId) : DeclarationTitle where
  kind := id.kind
  name := (model.parts.info id).name
  sourceName := (model.parts.info id).sourceName

/-- The elements of a model are the given declarations in their order. -/
structure Lists (model : DomainModel) (titles : List DeclarationTitle) : Prop where
  ordinals : model.topLevel.map (fun id => (model.parts.info id).ordinal) =
    List.range titles.length
  titles : model.topLevel.map model.title = titles
  /-- Every element is listed once. -/
  perm : model.topLevel.Perm model.parts.topLevelByKind
  nodup : model.topLevel.Nodup
  resolve_eq_some_iff : ∀ name id, model.resolve name = some id ↔
    id ∈ model.topLevel ∧ (model.parts.info id).name = name
  ordinal_lt : ∀ first ∈ model.topLevel, ∀ second ∈ model.topLevel, first.kind = second.kind →
    first.value < second.value →
      (model.parts.info first).ordinal < (model.parts.info second).ordinal

end DomainModel

namespace Allocation

/-- The id that a top-level record gets. -/
def topLevelPosition (allocation : Allocation) : TopLevelIndex → Model.TopLevelId
  | .enumeration index => .enumeration (position allocation.enumerations index)
  | .interface index => .interface (position allocation.interfaces index)
  | .klass index => .klass (position allocation.classes index)
  | .association index => .association (position allocation.associations index)
  | .projection index => .projection (position allocation.projections index)
  | .serviceGroup index => .serviceGroup (position allocation.serviceGroups index)

end Allocation

/-- The record of a declaration is of its kind. -/
theorem Program.Describes.kind_eq {program : Program} {header : Resolved.Header}
    {element : Syntax.Declaration} {index : TopLevelIndex}
    (describes : program.Describes header element index) : index.kind = element.kind := by
  cases describes <;> rfl

section Records

variable {registry : Registry} {program : Program} {recorded : List RecordedDeclaration}

/-- The records of declarations have the ordinals 0, 1, 2, …. -/
theorem Registry.Records.map_ordinal (records : registry.Records program recorded) :
    (recorded.map Prod.snd).map (fun index => (program.header index).ordinal) =
      List.range recorded.length := by
  refine List.ext_getElem (by simp) fun position inside _ => ?_
  rw [List.length_map, List.length_map] at inside
  rw [List.getElem_map, List.getElem_map, List.getElem_range,
    (records.describes position _ (List.getElem?_eq_getElem inside)).header_eq]
  rfl

/-- Sorted by ordinal, records stand in the order of the declarations. -/
theorem Registry.Records.topLevel_eq (records : registry.Records program recorded) :
    program.topLevel = recorded.map Prod.snd :=
  mergeSort_eq_of_perm records.all.symm (records.map_ordinal ▸ List.pairwise_lt_range)

end Records

namespace Allocation

variable {program : Program} {allocation : Allocation}

/-- In an order with a pattern, ids that are in order are those of records in order. -/
theorem rel_of_position_lt {kind : RecordKind} {order : List (Index kind)}
    {precedes : Index kind → Index kind → Prop} (sorted : order.Pairwise precedes)
    {first second : Index kind} (isFirst : first ∈ order) (isSecond : second ∈ order)
    (less : (position order first).value < (position order second).value) :
    precedes first second := by
  have ordered := List.pairwise_iff_getElem.mp sorted (order.idxOf first) (order.idxOf second)
    (List.idxOf_lt_length_of_mem isFirst) (List.idxOf_lt_length_of_mem isSecond) less
  rwa [List.getElem_idxOf, List.getElem_idxOf] at ordered

/-- Ids of one kind are given out in declaration order. -/
theorem ordinal_lt_of_position_lt (covers : (ofProgram program).Covers program)
    (increasing : program.topLevel.Pairwise fun first second =>
      (program.header first).ordinal < (program.header second).ordinal)
    {first second : TopLevelIndex} (isFirst : program.HoldsTopLevel first)
    (isSecond : program.HoldsTopLevel second) (sameKind : first.kind = second.kind)
    (less : ((ofProgram program).topLevelPosition first).value <
      ((ofProgram program).topLevelPosition second).value) :
    (program.header first).ordinal < (program.header second).ordinal := by
  have sorted {kind : RecordKind} (wrap : Index kind → TopLevelIndex)
      {select : TopLevelIndex → Option (Index kind)}
      (selects : ∀ top index, select top = some index → top = wrap index) :
      (allocateAll (program.topLevel.filterMap select)).Pairwise fun first second =>
        (program.header (wrap first)).ordinal < (program.header (wrap second)).ordinal := by
    have taken : (program.topLevel.filterMap select).Pairwise fun first second =>
        (program.header (wrap first)).ordinal < (program.header (wrap second)).ordinal := by
      refine List.Pairwise.filterMap select ?_ increasing
      intro top other less index isIndex otherIndex isOther
      rwa [← selects top index isIndex, ← selects other otherIndex isOther]
    have distinct : (program.topLevel.filterMap select).Nodup := by
      refine taken.imp ?_
      rintro index _ less rfl
      exact Nat.lt_irrefl _ less
    rwa [allocateAll_of_nodup distinct]
  cases first <;> cases second <;> cases sameKind
  case enumeration.enumeration.refl =>
    exact rel_of_position_lt (sorted .enumeration (by rintro ⟨⟩ ⟨⟩ <;> simp))
      (covers.enumerations.mem_iff.mpr isFirst) (covers.enumerations.mem_iff.mpr isSecond) less
  case interface.interface.refl =>
    exact rel_of_position_lt (sorted .interface (by rintro ⟨⟩ ⟨⟩ <;> simp))
      (covers.interfaces.mem_iff.mpr isFirst) (covers.interfaces.mem_iff.mpr isSecond) less
  case klass.klass.refl =>
    exact rel_of_position_lt (sorted .klass (by rintro ⟨⟩ ⟨⟩ <;> simp))
      (covers.classes.mem_iff.mpr isFirst) (covers.classes.mem_iff.mpr isSecond) less
  case association.association.refl =>
    exact rel_of_position_lt (sorted .association (by rintro ⟨⟩ ⟨⟩ <;> simp))
      (covers.associations.mem_iff.mpr isFirst) (covers.associations.mem_iff.mpr isSecond) less
  case projection.projection.refl =>
    exact rel_of_position_lt (sorted .projection (by rintro ⟨⟩ ⟨⟩ <;> simp))
      (covers.projections.mem_iff.mpr isFirst) (covers.projections.mem_iff.mpr isSecond) less
  case serviceGroup.serviceGroup.refl =>
    exact rel_of_position_lt (sorted .serviceGroup (by rintro ⟨⟩ ⟨⟩ <;> simp))
      (covers.serviceGroups.mem_iff.mpr isFirst) (covers.serviceGroups.mem_iff.mpr isSecond) less

/-- Different records get different ids. -/
theorem topLevelPosition_inj (covers : allocation.Covers program) {first second : TopLevelIndex}
    (holds : program.HoldsTopLevel first) :
    allocation.topLevelPosition first = allocation.topLevelPosition second ↔ first = second := by
  refine ⟨fun same => ?_, congrArg _⟩
  cases first <;> cases second <;>
    simp only [topLevelPosition, Model.TopLevelId.enumeration.injEq,
      Model.TopLevelId.interface.injEq, Model.TopLevelId.klass.injEq,
      Model.TopLevelId.association.injEq, Model.TopLevelId.projection.injEq,
      Model.TopLevelId.serviceGroup.injEq, reduceCtorEq] at same
  case enumeration.enumeration =>
    rw [(position_inj (covers.enumerations.mem_iff.mpr holds)).mp same]
  case interface.interface => rw [(position_inj (covers.interfaces.mem_iff.mpr holds)).mp same]
  case klass.klass => rw [(position_inj (covers.classes.mem_iff.mpr holds)).mp same]
  case association.association =>
    rw [(position_inj (covers.associations.mem_iff.mpr holds)).mp same]
  case projection.projection => rw [(position_inj (covers.projections.mem_iff.mpr holds)).mp same]
  case serviceGroup.serviceGroup =>
    rw [(position_inj (covers.serviceGroups.mem_iff.mpr holds)).mp same]

/-- The ids of an order are the numbers below its length. -/
theorem map_position {kind : RecordKind} {order : List (Index kind)} (distinct : order.Nodup) :
    order.map (position order) = (List.range order.length).map Model.Id.mk := by
  refine List.ext_getElem (by simp) fun place inside _ => ?_
  rw [List.length_map] at inside
  rw [List.getElem_map, List.getElem_map, List.getElem_range, position,
    distinct.idxOf_getElem place inside]

@[simp]
theorem kind_topLevelPosition (index : TopLevelIndex) :
    (allocation.topLevelPosition index).kind = index.kind := by
  cases index <;> rfl

end Allocation

namespace Assembly.Made

open Allocation (position exists_position)

variable {program : Program} {allocation : Allocation} {model : DomainModel}
  (made : Made program allocation model.parts) (covers : allocation.Covers program)
include made covers

/-- An element has the header of its record. -/
theorem info_topLevelPosition {index : TopLevelIndex} (holds : program.HoldsTopLevel index) :
    model.parts.info (allocation.topLevelPosition index) = info (program.header index) := by
  cases index with
  | enumeration index =>
    exact congrArg (·.info) (made.enumeration (covers.enumerations.mem_iff.mpr holds))
  | interface index =>
    have has : allocation.HasClassifier (.interface index) := covers.interfaces.mem_iff.mpr holds
    exact (made.classifier has).info
  | klass index =>
    have has : allocation.HasClassifier (.klass index) := covers.classes.mem_iff.mpr holds
    exact (made.classifier has).info
  | association index => exact (made.association (covers.associations.mem_iff.mpr holds)).info
  | projection index => exact (made.projection (covers.projections.mem_iff.mpr holds)).info
  | serviceGroup index => exact (made.serviceGroup (covers.serviceGroups.mem_iff.mpr holds)).info

/-- The elements of a model, kind by kind, are those of the program. -/
theorem topLevelByKind_perm :
    (program.topLevel.map allocation.topLevelPosition).Perm model.parts.topLevelByKind := by
  have ofKind {kind : RecordKind} {α β : Type} [Inhabited α] {arena : Arena kind α}
      {order : List (Index kind)} {records : List β} (enumerates : arena.Enumerates order)
      (size : records.length = order.length) (wrap : Model.Id kind → Model.TopLevelId) :
      (arena.indices.map fun index => wrap (position order index)).Perm
        ((Model.Parts.ids records).map wrap) := by
    have perm : arena.indices.Perm order :=
      (List.perm_ext_iff_of_nodup arena.nodup_indices enumerates.nodup).mpr fun index =>
        Arena.mem_indices.trans enumerates.mem_iff.symm
    rw [Model.Parts.ids, size, ← Allocation.map_position enumerates.nodup, List.map_map]
    exact perm.map _
  refine ((List.mergeSort_perm _ _).map _).trans ?_
  simp only [Program.topLevelByKind, List.map_append, List.map_map]
  exact (((((ofKind covers.enumerations (by simp [made.enumerations]) .enumeration).append
    (ofKind covers.interfaces (Allocation.length_made made.interfaces) .interface)).append
    (ofKind covers.classes (Allocation.length_made made.classes) .klass)).append
    (ofKind covers.associations (made.size_eq .association) .association)).append
    (ofKind covers.projections (Allocation.length_made made.projections) .projection)).append
    (ofKind covers.serviceGroups (Allocation.length_made made.serviceGroups) .serviceGroup)

end Assembly.Made

namespace DomainModel.AssembledFrom

variable {model : DomainModel} {workspace : Workspace} {units : List CompilationUnit}
  {recorded : List RecordedDeclaration} {fragments : List CompilationUnit}

/-- The id that the record of a declaration gets. -/
def elementOf (workspace : Workspace) (index : TopLevelIndex) : Model.TopLevelId :=
  workspace.allocation.topLevelPosition index

variable (assembled : model.AssembledFrom units recorded fragments workspace)
include assembled

theorem holds_of_mem {index : TopLevelIndex} (member : index ∈ recorded.map Prod.snd) :
    workspace.program.HoldsTopLevel index :=
  Program.mem_topLevelByKind.mp (assembled.records.all.mem_iff.mp member)

/-- An element has the header of the declaration. -/
theorem info_elementOf {index : TopLevelIndex} (member : index ∈ recorded.map Prod.snd) :
    model.parts.info (elementOf workspace index) =
      Assembly.info (workspace.program.header index) :=
  assembled.made.info_topLevelPosition assembled.covers (assembled.holds_of_mem member)

/-- The elements have the ordinals of the declarations. -/
theorem map_ordinal :
    ((recorded.map Prod.snd).map (elementOf workspace)).map
        (fun id => (model.parts.info id).ordinal) = List.range recorded.length := by
  rw [← assembled.records.map_ordinal, List.map_map]
  refine List.map_congr_left fun index member => ?_
  rw [Function.comp_apply, assembled.info_elementOf member]
  rfl

/-- The elements in the order of the declarations are all elements. -/
theorem elements_perm :
    ((recorded.map Prod.snd).map (elementOf workspace)).Perm model.parts.topLevelByKind := by
  rw [← assembled.records.topLevel_eq]
  exact assembled.made.topLevelByKind_perm assembled.covers

/-- The names of the declarations are distinct. -/
theorem nodup_names : ((recorded.map Prod.snd).map workspace.program.nameOf).Nodup := by
  refine assembled.records.nodup.map_on fun first isFirst second isSecond same => ?_
  exact assembled.sound.named first second (assembled.holds_of_mem isFirst)
    (assembled.holds_of_mem isSecond) same

/-- A model indexes its elements by name in the order of the declarations. -/
theorem names_eq :
    model.names = (recorded.map Prod.snd).map fun index =>
      (workspace.program.nameOf index, elementOf workspace index) := by
  have ordered : (model.parts.topLevelByKind.mergeSort fun first second =>
      (model.parts.info first).ordinal ≤ (model.parts.info second).ordinal) =
      (recorded.map Prod.snd).map (elementOf workspace) :=
    mergeSort_eq_of_perm assembled.elements_perm.symm
      (assembled.map_ordinal ▸ List.pairwise_lt_range)
  have named : ((recorded.map Prod.snd).map (elementOf workspace)).map
      (fun id => ((model.parts.info id).name, id)) = (recorded.map Prod.snd).map fun index =>
        (workspace.program.nameOf index, elementOf workspace index) := by
    rw [List.map_map]
    refine List.map_congr_left fun index member => ?_
    rw [Function.comp_apply, assembled.info_elementOf member]
    rfl
  rw [← assembled.ofParts_parts]
  simp only [DomainModel.ofParts, ordered, named]
  refine keepFirst_eq_self ?_
  rw [List.map_map]
  exact assembled.nodup_names

theorem topLevel_eq : model.topLevel = (recorded.map Prod.snd).map (elementOf workspace) := by
  rw [DomainModel.topLevel, assembled.names_eq, List.map_map]
  rfl

theorem resolve_eq_some_iff {name : String} {id : Model.TopLevelId} :
    model.resolve name = some id ↔ ∃ index ∈ recorded.map Prod.snd,
      workspace.program.nameOf index = name ∧ elementOf workspace index = id := by
  have distinct : (model.names.map Prod.fst).Nodup := by
    rw [assembled.names_eq, List.map_map]
    exact assembled.nodup_names
  rw [DomainModel.resolve, lookup_eq_some_iff_mem distinct, assembled.names_eq, List.mem_map]
  simp only [Prod.mk.injEq]

/-- A name means the same to the registry and to the model. -/
theorem resolve_eq (name : String) :
    (workspace.registry.resolve name).map (elementOf workspace) =
      .ofOption (model.resolve name) := by
  have named := assembled.names.topLevel name
  have known {index : TopLevelIndex} (holds : workspace.program.HoldsTopLevel index) :
      index ∈ recorded.map Prod.snd :=
    assembled.records.all.mem_iff.mpr (Program.mem_topLevelByKind.mpr holds)
  cases outcome : workspace.registry.resolve name with
  | notFound =>
    rw [outcome, eq_comm, Resolution.ofMatches_eq_notFound] at named
    cases found : model.resolve name with
    | none => rfl
    | some id =>
      obtain ⟨index, member, called, -⟩ := assembled.resolve_eq_some_iff.mp found
      have among := Program.mem_named.mpr ⟨assembled.holds_of_mem member, called⟩
      rw [named] at among
      cases among
  | resolved index =>
    rw [outcome, eq_comm, Resolution.ofMatches_eq_resolved] at named
    have among : index ∈ workspace.program.named name := named ▸ List.mem_singleton_self index
    obtain ⟨holds, called⟩ := Program.mem_named.mp among
    rw [assembled.resolve_eq_some_iff.mpr ⟨index, known holds, called, rfl⟩]
    rfl
  | ambiguous =>
    refine absurd (named.symm.trans outcome) (Resolution.ofMatches_ne_ambiguous ?_ ?_)
    · exact workspace.program.nodup_topLevelByKind.filter _
    · intro first isFirst second isSecond
      rw [Program.mem_named] at isFirst isSecond
      exact assembled.sound.named first second isFirst.1 isSecond.1
        (isFirst.2.trans isSecond.2.symm)

/-- A model lists its declarations in order. -/
theorem lists : model.Lists (recorded.map fun entry =>
    ⟨entry.1.2.kind, entry.1.2.name.name, entry.1.1.sourceName⟩) := by
  have distinct : ((recorded.map Prod.snd).map (elementOf workspace)).Nodup :=
    assembled.records.nodup.map_on fun first isFirst second _ same =>
      (Allocation.topLevelPosition_inj assembled.covers (assembled.holds_of_mem isFirst)).mp same
  have increasing : workspace.program.topLevel.Pairwise fun first second =>
      (workspace.program.header first).ordinal < (workspace.program.header second).ordinal := by
    rw [assembled.records.topLevel_eq, ← List.pairwise_map, assembled.records.map_ordinal]
    exact List.pairwise_lt_range
  constructor
  case ordinals =>
    rw [assembled.topLevel_eq, assembled.map_ordinal, List.length_map]
  case titles =>
    rw [assembled.topLevel_eq, List.map_map, List.map_map]
    refine List.map_congr_left fun entry member => ?_
    obtain ⟨ordinal, describes⟩ := assembled.records.describes_mem member
    simp only [Function.comp_apply, DomainModel.title]
    rw [assembled.info_elementOf (List.mem_map_of_mem member), describes.header_eq, elementOf,
      Allocation.kind_topLevelPosition, describes.kind_eq]
    rfl
  case perm => exact assembled.topLevel_eq ▸ assembled.elements_perm
  case nodup => exact assembled.topLevel_eq ▸ distinct
  case resolve_eq_some_iff =>
    intro name id
    rw [assembled.resolve_eq_some_iff, assembled.topLevel_eq, List.mem_map]
    constructor
    · rintro ⟨index, member, rfl, rfl⟩
      exact ⟨⟨index, member, rfl⟩, congrArg (·.name) (assembled.info_elementOf member)⟩
    · rintro ⟨⟨index, member, rfl⟩, rfl⟩
      exact ⟨index, member, (congrArg (·.name) (assembled.info_elementOf member)).symm, rfl⟩
  case ordinal_lt =>
    intro first isFirst second isSecond sameKind less
    rw [assembled.topLevel_eq, List.mem_map] at isFirst isSecond
    obtain ⟨first, memberFirst, rfl⟩ := isFirst
    obtain ⟨second, memberSecond, rfl⟩ := isSecond
    rw [assembled.info_elementOf memberFirst, assembled.info_elementOf memberSecond]
    simp only [elementOf, Allocation.kind_topLevelPosition] at sameKind
    exact Allocation.ordinal_lt_of_position_lt assembled.covers increasing
      (assembled.holds_of_mem memberFirst) (assembled.holds_of_mem memberSecond) sameKind less

end DomainModel.AssembledFrom

namespace Syntax.Declaration

@[simp]
theorem kind_stripped (declaration : Declaration) :
    declaration.stripped.kind = declaration.kind := by
  cases declaration <;> rfl

@[simp]
theorem name_stripped (declaration : Declaration) :
    declaration.stripped.name.name = declaration.name.name := by
  cases declaration <;> rfl

end Syntax.Declaration

/-- The declarations of the units are those of the files. -/
theorem titles_declarationsOf (trees : List (String × Syntax.SourceTree)) :
    (declarationsOf (SourceSet.ofTrees trees).units).map (fun written =>
        (⟨written.2.kind, written.2.name.name, written.1.sourceName⟩ : DeclarationTitle)) =
      declarationTitles trees := by
  have titles := congrArg (List.map fun written : String × Syntax.Declaration =>
    (⟨written.2.kind, written.2.name.name, written.1⟩ : DeclarationTitle))
    (SourceSet.stripped_declarationsOf trees)
  simpa [List.map_flatMap, Function.comp_def, declarationTitles] using titles

/-- A model lists the declarations of all files in their order and finds each under its name,
as the registry of the analysis does. -/
theorem compile_lists {trees : List (String × Syntax.SourceTree)}
    {configuration : Configuration} {compilation : Compilation} {model : DomainModel}
    (compiled : compile trees configuration = .ok compilation)
    (found : compilation.model = some model) :
    model.Lists (declarationTitles trees) ∧
      ∃ analysed, Phase.analyze.Returns
          { options := configuration.options, units := (SourceSet.ofTrees trees).units } ()
          analysed ∧
        ∀ name, (analysed.registry.resolve name).map
            (Allocation.ofProgram analysed.program).topLevelPosition =
          .ofOption (model.resolve name) := by
  obtain ⟨workspace, recorded, fragments, assembled, -, returns⟩ :=
    exists_assembledFrom_of_compile compiled found
  have titles : (recorded.map fun entry => (⟨entry.1.2.kind, entry.1.2.name.name,
      entry.1.1.sourceName⟩ : DeclarationTitle)) = declarationTitles trees := by
    rw [← titles_declarationsOf, ← assembled.written, List.map_map]
    rfl
  exact ⟨titles ▸ assembled.lists, workspace.reportAll, returns, assembled.resolve_eq⟩

/-- The documents declare five elements in two files. -/
theorem compile_lists_documents : ∃ compilation model,
    compile Sample.trees {} = .ok compilation ∧ compilation.model = some model ∧
      model.Lists [⟨.klass, "Doc", "documents"⟩, ⟨.association, "Versions", "documents"⟩,
        ⟨.klass, "Folder", "services"⟩, ⟨.projection, "View", "services"⟩,
        ⟨.serviceGroup, "Service", "services"⟩] := by
  obtain ⟨compilation, model, compiled, found, -⟩ := Sample.compiles
  exact ⟨compilation, model, compiled, found, (compile_lists compiled found).1⟩

end DomainLang
