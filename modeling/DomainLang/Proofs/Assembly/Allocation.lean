import DomainLang.Proofs.Findings
import Mathlib.Data.List.Induction

/-!
# Every record gets one id

The orders in which records are allocated have each record of their kind exactly once, so that
a record has an id, different records have different ids and every id below the number of
records is the id of one. Tables that are made record by record in such an order can be read
at an id: there stands what was made of the record with that id.
-/

namespace DomainLang

open Resolved

/-- A list has every record of an arena once. -/
structure Arena.Enumerates {kind : RecordKind} {α : Type} [Inhabited α] (arena : Arena kind α)
    (order : List (Index kind)) : Prop where
  nodup : order.Nodup
  mem_iff : ∀ {index}, index ∈ order ↔ arena.Holds index

namespace Allocation

variable {kind : RecordKind} {order : List (Index kind)}

/-- Records that are all different get their ids in the order in which they are taken. -/
theorem allocateAll_of_nodup (distinct : order.Nodup) : allocateAll order = order := by
  induction order using List.reverseRecOn with
  | nil => rfl
  | append_singleton order index ih =>
    obtain ⟨distinct, -, apart⟩ := List.nodup_append.mp distinct
    have new : index ∉ order := fun member => apart index member index (by simp) rfl
    have concat : allocateAll (order ++ [index]) = allocate (allocateAll order) index := by
      rw [allocateAll, List.foldl_append]
      rfl
    rw [concat, ih distinct, allocate, if_neg new]

/-- A complete order is the order of ids of its records. -/
theorem enumerates_allocateAll {α : Type} [Inhabited α] {arena : Arena kind α}
    (enumerates : arena.Enumerates order) : arena.Enumerates (allocateAll order) := by
  rw [allocateAll_of_nodup enumerates.nodup]
  exact enumerates

/-- The id that a record gets in an order. -/
def position (order : List (Index kind)) (index : Index kind) : Model.Id kind :=
  ⟨order.idxOf index⟩

/-- Exactly the records of an order have ids, which are their positions. -/
theorem idOf_eq_ok {index : Index kind} {id : Model.Id kind} :
    idOf order index = .ok id ↔ index ∈ order ∧ position order index = id := by
  unfold idOf position
  by_cases member : index ∈ order
  · have found : order.idxOf? index = some (order.idxOf index) :=
      List.findIdx?_eq_some_of_exists ⟨index, member, beq_self_eq_true index⟩
    simp [found, member]
  · simp [List.idxOf?_eq_none_iff.mpr member, member]

/-- Different records have different ids. -/
theorem position_inj {first second : Index kind} (member : first ∈ order) :
    position order first = position order second ↔ first = second := by
  simp [position, List.idxOf_inj member]

theorem position_lt {index : Index kind} (member : index ∈ order) :
    (position order index).value < order.length :=
  List.idxOf_lt_length_of_mem member

/-- Every number below the number of records is an id. -/
theorem exists_position (distinct : order.Nodup) {id : Model.Id kind}
    (inside : id.value < order.length) : ∃ index ∈ order, position order index = id := by
  refine ⟨order[id.value], List.getElem_mem inside, ?_⟩
  rw [position, distinct.idxOf_getElem]

theorem idsOf_eq_ok {indices : List (Index kind)} {ids : List (Model.Id kind)} :
    idsOf order indices = .ok ids ↔
      (∀ index ∈ indices, index ∈ order) ∧ ids = indices.map (position order) := by
  rw [idsOf, mapM_eq_ok]
  simp only [idOf_eq_ok]
  induction indices generalizing ids with
  | nil => simp
  | cons index indices ih =>
    simp only [List.forall₂_cons_left_iff, ih, List.mem_cons, forall_eq_or_imp,
      List.map_cons]
    constructor
    · rintro ⟨_, _, ⟨member, rfl⟩, ⟨members, rfl⟩, rfl⟩
      exact ⟨⟨member, members⟩, rfl⟩
    · rintro ⟨⟨member, members⟩, rfl⟩
      exact ⟨_, _, ⟨member, rfl⟩, ⟨members, rfl⟩, rfl⟩

/-- At the id of a record stands what was made of it. -/
theorem made_at_position {α ε : Type} [Inhabited α] {make : Index kind → Except ε α}
    {records : List α} (made : order.mapM make = .ok records) {index : Index kind}
    (member : index ∈ order) :
    make index = .ok (records.getD (position order index).value default) := by
  rw [mapM_eq_ok] at made
  induction made with
  | nil => cases member
  | cons here rest ih =>
    rename_i first record order records
    by_cases same : first = index
    · subst same
      simpa [position] using here
    · have later := ih ((List.mem_cons.mp member).resolve_left (Ne.symm same))
      simpa [position, List.idxOf_cons_ne _ same] using later

/-- Everything that was made stands at the id of the record it was made of. -/
theorem exists_mem_made {α ε : Type} [Inhabited α] {make : Index kind → Except ε α}
    {records : List α} (distinct : order.Nodup) (made : order.mapM make = .ok records) {record : α}
    (member : record ∈ records) :
    ∃ index ∈ order, records.getD (position order index).value default = record := by
  obtain ⟨place, inside, rfl⟩ := List.getElem_of_mem member
  have bound : (⟨place⟩ : Model.Id kind).value < order.length := by
    rw [(mapM_eq_ok.mp made).length_eq]
    exact inside
  obtain ⟨index, known, here⟩ := exists_position distinct bound
  refine ⟨index, known, ?_⟩
  rw [here]
  simp [List.getD_eq_getElem?_getD, inside]

theorem length_made {α ε : Type} {make : Index kind → Except ε α} {records : List α}
    (made : order.mapM make = .ok records) : records.length = order.length :=
  (mapM_eq_ok.mp made).length_eq.symm

end Allocation

/-- The lists of all owners together have every record once. -/
theorem Owned.enumerates {kind : RecordKind} {α Owner : Type} [Inhabited α] [DecidableEq Owner]
    {held : Owner → Prop} {arena : Arena kind α} {owner : α → Owner}
    {exempt : Owner → Prop} {listed : Owner → List (Index kind)}
    (owned : Owned held exempt arena owner listed) (settled : ∀ holder, ¬ exempt holder)
    {owners : List Owner} (distinct : owners.Nodup)
    (all : ∀ holder, holder ∈ owners ↔ held holder) : arena.Enumerates (owners.flatMap listed) where
  nodup := by
    rw [List.nodup_flatMap]
    constructor
    · intro holder member
      rw [owned.listed_eq holder ((all holder).mp member) (settled holder)]
      exact arena.nodup_select _
    · -- A record in two lists would have two owners.
      rw [List.pairwise_iff_getElem]
      intro first second isFirst isSecond before index inFirst inSecond
      have firstOwner := ((owned.mem_listed ((all _).mp (List.getElem_mem isFirst))
        (settled _)).mp inFirst).2
      have secondOwner := ((owned.mem_listed ((all _).mp (List.getElem_mem isSecond))
        (settled _)).mp inSecond).2
      have same := distinct.getElem_inj_iff.mp (firstOwner.symm.trans secondOwner)
      omega
  mem_iff := by
    intro index
    rw [List.mem_flatMap]
    constructor
    · rintro ⟨holder, member, isListed⟩
      exact ((owned.mem_listed ((all holder).mp member) (settled holder)).mp isListed).1
    · intro holds
      have holdsOwner := owned.held_owner index holds
      exact ⟨_, (all _).mpr holdsOwner,
        (owned.mem_listed holdsOwner (settled _)).mpr ⟨holds, rfl⟩⟩

/-- The two ends of all associations are all ends, each once. -/
theorem Program.EndsPaired.enumerates {associations : Arena .association Association}
    {ends : Arena .associationEnd AssociationEnd}
    (paired : Program.EndsPaired associations ends) {order : List AssociationIndex}
    (enumerates : associations.Enumerates order) :
    ends.Enumerates (order.flatMap fun index =>
      [(associations.get index).source, (associations.get index).target]) where
  nodup := by
    rw [List.nodup_flatMap]
    constructor
    · intro index member
      have holds := enumerates.mem_iff.mp member
      simpa using paired.source_ne_target holds
    · rw [List.pairwise_iff_getElem]
      intro first second isFirst isSecond before associationEnd inFirst inSecond
      have holdsFirst := enumerates.mem_iff.mp (List.getElem_mem isFirst)
      have holdsSecond := enumerates.mem_iff.mp (List.getElem_mem isSecond)
      have ofFirst : associationEnd = (associations.get order[first]).source ∨
          associationEnd = (associations.get order[first]).target := by simpa using inFirst
      have ofSecond : associationEnd = (associations.get order[second]).source ∨
          associationEnd = (associations.get order[second]).target := by simpa using inSecond
      have holds : ends.Holds associationEnd := by
        rcases ofFirst with rfl | rfl
        · exact paired.holds_source holdsFirst
        · exact paired.holds_target holdsFirst
      have same := ((paired.association_eq_iff holdsFirst holds).mpr ofFirst).symm.trans
        ((paired.association_eq_iff holdsSecond holds).mpr ofSecond)
      have equal := enumerates.nodup.getElem_inj_iff.mp same
      omega
  mem_iff := by
    intro associationEnd
    simp only [List.mem_flatMap, List.mem_cons, List.not_mem_nil, or_false]
    constructor
    · rintro ⟨association, member, rfl | rfl⟩
      · exact paired.holds_source (enumerates.mem_iff.mp member)
      · exact paired.holds_target (enumerates.mem_iff.mp member)
    · intro holds
      have held := paired.holds_association holds
      exact ⟨_, enumerates.mem_iff.mpr held, (paired.association_eq_iff held holds).mp rfl⟩

namespace Allocation

/-- Every kind of record is allocated completely. -/
structure Covers (allocation : Allocation) (program : Program) : Prop where
  enumerations : program.enumerations.Enumerates allocation.enumerations
  interfaces : program.interfaces.Enumerates allocation.interfaces
  classes : program.classes.Enumerates allocation.classes
  properties : program.properties.Enumerates allocation.properties
  endSignatures : program.endSignatures.Enumerates allocation.endSignatures
  associations : program.associations.Enumerates allocation.associations
  associationEnds : program.associationEnds.Enumerates allocation.associationEnds
  projections : program.projections.Enumerates allocation.projections
  serviceGroups : program.serviceGroups.Enumerates allocation.serviceGroups
  urls : program.urls.Enumerates allocation.urls
  parameters : program.parameters.Enumerates allocation.parameters
  services : program.services.Enumerates allocation.services

/-- The declarations of one kind in declaration order are all of that kind. -/
theorem enumerates_filterMap {kind : RecordKind} {α : Type} [Inhabited α]
    (program : Program) (arena : Arena kind α) (wrap : Index kind → TopLevelIndex)
    {select : TopLevelIndex → Option (Index kind)}
    (selects : ∀ top index, select top = some index ↔ top = wrap index)
    (holds : ∀ index, program.HoldsTopLevel (wrap index) ↔ arena.Holds index) :
    arena.Enumerates (allocateAll (program.topLevel.filterMap select)) := by
  apply enumerates_allocateAll
  constructor
  case nodup =>
    apply program.nodup_topLevel.filterMap
    intro first second index isFirst isSecond
    rw [(selects first index).mp isFirst, (selects second index).mp isSecond]
  case mem_iff =>
    intro index
    simp only [List.mem_filterMap, selects, exists_eq_right, Program.mem_topLevel, holds]

/-- The allocation of a coherent program is complete. -/
theorem covers_ofProgram {program : Program} (coherent : program.Coherent none none) :
    (ofProgram program).Covers program := by
  have groups : program.serviceGroups.Enumerates (ofProgram program).serviceGroups :=
    enumerates_filterMap program _ .serviceGroup (by rintro ⟨⟩ ⟨⟩ <;> simp) fun _ => Iff.rfl
  have associations : program.associations.Enumerates (ofProgram program).associations :=
    enumerates_filterMap program _ .association (by rintro ⟨⟩ ⟨⟩ <;> simp) fun _ => Iff.rfl
  have urls : program.urls.Enumerates (ofProgram program).urls :=
    enumerates_allocateAll <| coherent.urls.enumerates (by simp) groups.nodup
      fun _ => groups.mem_iff
  exact
    { enumerations :=
        enumerates_filterMap program _ .enumeration (by rintro ⟨⟩ ⟨⟩ <;> simp) fun _ => Iff.rfl
      interfaces :=
        enumerates_filterMap program _ .interface (by rintro ⟨⟩ ⟨⟩ <;> simp) fun _ => Iff.rfl
      classes :=
        enumerates_filterMap program _ .klass (by rintro ⟨⟩ ⟨⟩ <;> simp) fun _ => Iff.rfl
      projections :=
        enumerates_filterMap program _ .projection (by rintro ⟨⟩ ⟨⟩ <;> simp) fun _ => Iff.rfl
      properties := enumerates_allocateAll <| coherent.properties.enumerates (by simp)
        program.nodup_classifiers fun _ => Program.mem_classifiers
      endSignatures := enumerates_allocateAll <| coherent.endSignatures.enumerates (by simp)
        program.nodup_classifiers fun _ => Program.mem_classifiers
      associationEnds := enumerates_allocateAll <| coherent.ends.enumerates associations
      parameters := enumerates_allocateAll <| coherent.parameters.enumerates (by simp) urls.nodup
        fun _ => urls.mem_iff
      services := enumerates_allocateAll <| coherent.services.enumerates (by simp) urls.nodup
        fun _ => urls.mem_iff
      associations
      serviceGroups := groups
      urls }

end Allocation
end DomainLang
