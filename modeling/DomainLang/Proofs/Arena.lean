import DomainLang.Program.Arena
import Mathlib.Data.List.Range
import Mathlib.Data.List.Nodup
import Mathlib.Data.List.Basic

/-!
# Reading arenas

Every record of an arena is read at exactly one index. `Arena.select` lists the
indices whose records pass a test, in the order in which the records were made;
adding a record extends it at the end, and changing records in ways that the test
does not see leaves it alone. Lists of members that are kept in records are shown
elsewhere to be such selections, which settles at once that each member is listed
by its owner exactly once and by nothing else.
-/

namespace DomainLang.Arena

variable {kind : RecordKind} {α : Type} {arena : Arena kind α} {index : Index kind}
  {change view : α → α} {before after : Arena kind α}

/-- Whether an index belongs to a record of the arena. -/
def Holds (arena : Arena kind α) (index : Index kind) : Prop :=
  index.value < arena.size

instance (arena : Arena kind α) (index : Index kind) : Decidable (arena.Holds index) :=
  inferInstanceAs (Decidable (index.value < arena.size))

@[simp]
theorem mem_indices : index ∈ arena.indices ↔ arena.Holds index := by
  obtain ⟨value⟩ := index
  simp [indices, Holds]

theorem nodup_indices (arena : Arena kind α) : arena.indices.Nodup := by
  apply List.Nodup.map _ List.nodup_range
  intro first second equal
  exact congrArg Index.value equal

@[simp]
theorem length_indices (arena : Arena kind α) : arena.indices.length = arena.size := by
  simp [indices]

@[simp]
theorem size_push (arena : Arena kind α) (record : α) :
    (arena.push record).size = arena.size + 1 := by
  simp [push, size]

@[simp]
theorem size_modify (arena : Arena kind α) (index : Index kind) (change : α → α) :
    (arena.modify index change).size = arena.size := by
  simp [modify, size]

@[simp]
theorem size_map (arena : Arena kind α) (change : α → α) :
    (arena.map change).size = arena.size := by
  simp [map, size]

@[simp]
theorem size_mapWithIndex (arena : Arena kind α) (change : Index kind → α → α) :
    (arena.mapWithIndex change).size = arena.size := by
  simp [mapWithIndex, size]

@[simp]
theorem holds_modify {index other : Index kind} :
    (arena.modify index change).Holds other ↔ arena.Holds other := by
  simp [Holds]

@[simp]
theorem holds_map : (arena.map change).Holds index ↔ arena.Holds index := by
  simp [Holds]

@[simp]
theorem holds_mapWithIndex {change : Index kind → α → α} :
    (arena.mapWithIndex change).Holds index ↔ arena.Holds index := by
  simp [Holds]

theorem holds_push {record : α} :
    (arena.push record).Holds index ↔ arena.Holds index ∨ index = arena.next := by
  obtain ⟨value⟩ := index
  simp only [Holds, size_push, next, Index.mk.injEq]
  omega

theorem Holds.push (holds : arena.Holds index) (record : α) : (arena.push record).Holds index :=
  holds_push.mpr (.inl holds)

@[simp]
theorem holds_push_next (arena : Arena kind α) (record : α) :
    (arena.push record).Holds arena.next :=
  holds_push.mpr (.inr rfl)

theorem not_holds_next (arena : Arena kind α) : ¬ arena.Holds arena.next :=
  Nat.lt_irrefl _

theorem indices_push (arena : Arena kind α) (record : α) :
    (arena.push record).indices = arena.indices ++ [arena.next] := by
  simp [indices, List.range_succ, next]

@[simp]
theorem indices_modify (arena : Arena kind α) (index : Index kind) (change : α → α) :
    (arena.modify index change).indices = arena.indices := by
  simp [indices]

@[simp]
theorem indices_map (arena : Arena kind α) (change : α → α) :
    (arena.map change).indices = arena.indices := by
  simp [indices]

@[simp]
theorem indices_mapWithIndex (arena : Arena kind α) (change : Index kind → α → α) :
    (arena.mapWithIndex change).indices = arena.indices := by
  simp [indices]

theorem holds_iff_of_map_eq (same : before.map view = after.map view) :
    after.Holds index ↔ before.Holds index := by
  have size : before.size = after.size := by simpa using congrArg size same
  simp [Holds, size]

theorem map_map_of_unseen (unseen : ∀ record, view (change record) = view record) :
    (arena.map change).map view = arena.map view := by
  simp [map, Function.comp_def, unseen]

theorem map_mapWithIndex_of_unseen {change : Index kind → α → α}
    (unseen : ∀ index record, view (change index record) = view record) :
    (arena.mapWithIndex change).map view = arena.map view := by
  simp only [mapWithIndex, map, mk.injEq]
  apply List.ext_getElem?
  intro position
  simp [Option.map_map, Function.comp_def, unseen]

/-- A change that a view does not see. -/
theorem map_modify (unseen : ∀ record, view (change record) = view record) :
    (arena.modify index change).map view = arena.map view := by
  simp only [modify, map, mk.injEq]
  apply List.ext_getElem?
  intro position
  simp only [List.getElem?_map, List.getElem?_modify]
  by_cases here : index.value = position
  · simp [here, Function.comp_def, unseen]
  · simp [here]

/-- Changing the record that was just added is adding the changed record. -/
theorem modify_push_next (arena : Arena kind α) (record : α) (change : α → α) :
    (arena.push record).modify arena.next change = arena.push (change record) := by
  simp only [push, modify, next, size, mk.injEq]
  induction arena.records with
  | nil => rfl
  | cons first rest ih => simp [ih]

section Get

variable [Inhabited α]

theorem get_push_of_holds (holds : arena.Holds index) (record : α) :
    (arena.push record).get index = arena.get index := by
  have inside : index.value < arena.records.length := holds
  simp [get, push, List.getD_eq_getElem?_getD, List.getElem?_append_left inside]

@[simp]
theorem get_push_next (arena : Arena kind α) (record : α) :
    (arena.push record).get arena.next = record := by
  simp [get, push, next, size]

@[simp]
theorem get_modify_self (holds : arena.Holds index) (change : α → α) :
    (arena.modify index change).get index = change (arena.get index) := by
  have inside : index.value < arena.records.length := holds
  simp [get, modify, List.getD_eq_getElem?_getD, inside]

theorem get_modify_of_ne {index other : Index kind} (different : other ≠ index) (change : α → α) :
    (arena.modify index change).get other = arena.get other := by
  have apart : index.value ≠ other.value := by
    intro equal
    apply different
    cases index; cases other; simp_all
  simp [get, modify, List.getD_eq_getElem?_getD, apart]

theorem get_map (holds : arena.Holds index) (change : α → α) :
    (arena.map change).get index = change (arena.get index) := by
  have inside : index.value < arena.records.length := holds
  simp [get, map, List.getD_eq_getElem?_getD, inside]

theorem get_mapWithIndex (holds : arena.Holds index) (change : Index kind → α → α) :
    (arena.mapWithIndex change).get index = change index (arena.get index) := by
  have inside : index.value < arena.records.length := holds
  simp [get, mapWithIndex, List.getD_eq_getElem?_getD, inside]

/-- Reading past the end gives the blank record. -/
theorem get_of_not_holds (beyond : ¬ arena.Holds index) : arena.get index = default := by
  have outside : arena.records.length ≤ index.value := Nat.le_of_not_lt beyond
  simp [get, List.getD_eq_getElem?_getD, outside]

/-- What holds of the records there were and of a new one holds of all. -/
theorem forall_push {record : α} {motive : Index kind → α → Prop}
    (old : ∀ index, arena.Holds index → motive index (arena.get index))
    (new : motive arena.next record) (index : Index kind)
    (holds : (arena.push record).Holds index) :
    motive index ((arena.push record).get index) := by
  rcases holds_push.mp holds with held | rfl
  · rw [get_push_of_holds held]
    exact old index held
  · rw [get_push_next]
    exact new

/-- What holds of the records that stay and of the changed one holds of all. -/
theorem forall_modify {changed : Index kind} {motive : Index kind → α → Prop}
    (others : ∀ index, arena.Holds index → index ≠ changed → motive index (arena.get index))
    (new : arena.Holds changed → motive changed (change (arena.get changed))) (index : Index kind)
    (holds : (arena.modify changed change).Holds index) :
    motive index ((arena.modify changed change).get index) := by
  have held := holds_modify.mp holds
  by_cases equal : index = changed
  · subst equal
    rw [get_modify_self held]
    exact new held
  · rw [get_modify_of_ne equal]
    exact others index held equal

/-- Every reading after an addition gives what was read before or the new record. -/
theorem get_push_cases (arena : Arena kind α) (record : α) (index : Index kind) :
    (arena.push record).get index = arena.get index ∨ (arena.push record).get index = record := by
  by_cases holds : (arena.push record).Holds index
  · rcases holds_push.mp holds with old | rfl
    · exact .inl (get_push_of_holds old record)
    · exact .inr (get_push_next ..)
  · have absent : ¬ arena.Holds index := fun old => holds (old.push record)
    exact .inl (by rw [get_of_not_holds holds, get_of_not_holds absent])

/-- A record is one of those there were or one of those that were added. -/
theorem get_cases_of_append {records : List α} (more : after.records = before.records ++ records)
    (holds : after.Holds index) :
    before.Holds index ∧ after.get index = before.get index ∨ after.get index ∈ records := by
  have inside : index.value < (before.records ++ records).length := by
    rw [← more]
    exact holds
  have found : after.get index = (before.records ++ records)[index.value] := by
    simp only [get, more, List.getD_eq_getElem?_getD, List.getElem?_eq_getElem inside,
      Option.getD_some]
  by_cases old : index.value < before.records.length
  · refine .inl ⟨old, ?_⟩
    rw [found, List.getElem_append_left old]
    simp only [get, List.getD_eq_getElem?_getD, List.getElem?_eq_getElem old, Option.getD_some]
  · rw [found, List.getElem_append_right (Nat.le_of_not_lt old)]
    exact .inr (List.getElem_mem ..)

/-- What a change leaves alone is read as before. -/
theorem field_get_map {β : Type} (field : α → β)
    (unseen : ∀ record, field (change record) = field record) (index : Index kind) :
    field ((arena.map change).get index) = field (arena.get index) := by
  by_cases holds : arena.Holds index
  · rw [get_map holds, unseen]
  · rw [get_of_not_holds holds, get_of_not_holds (mt holds_map.mp holds)]

/-- A change that keeps the default record can be read anywhere. -/
theorem get_map_of_fixed (fixed : change default = default) (index : Index kind) :
    (arena.map change).get index = change (arena.get index) := by
  by_cases holds : arena.Holds index
  · rw [get_map holds]
  · rw [get_of_not_holds holds, get_of_not_holds (mt holds_map.mp holds), fixed]

/-- Changing one record does not matter to a field that the change leaves alone. -/
theorem field_get_modify {β : Type} {changed : Index kind} (field : α → β)
    (unseen : ∀ record, field (change record) = field record) (index : Index kind) :
    field ((arena.modify changed change).get index) = field (arena.get index) := by
  by_cases holds : arena.Holds index
  · exact forall_modify (motive := fun index record => field record = field (arena.get index))
      (fun _ _ _ => rfl) (fun _ => unseen _) index (holds_modify.mpr holds)
  · rw [get_of_not_holds holds, get_of_not_holds (mt holds_modify.mp holds)]

/-- In arenas that look the same, what can be seen of records is the same. -/
theorem field_get_of_map_eq {β : Type} (same : before.map view = after.map view) (field : α → β)
    (seen : ∀ record, field (view record) = field record) (index : Index kind) :
    field (after.get index) = field (before.get index) := by
  by_cases holds : before.Holds index
  · have alike : view (after.get index) = view (before.get index) := by
      rw [← get_map holds view, ← get_map ((holds_iff_of_map_eq same).mpr holds) view, same]
    rw [← seen, alike, seen]
  · rw [get_of_not_holds holds, get_of_not_holds (mt (holds_iff_of_map_eq same).mp holds)]

/-- The records are what is read at the indices, in order. -/
theorem records_eq_map_get (arena : Arena kind α) :
    arena.records = arena.indices.map arena.get := by
  apply List.ext_getElem
  · simp [size]
  · intro position inside _
    simp [indices, get, List.getD_eq_getElem?_getD, inside]

theorem mem_records {record : α} :
    record ∈ arena.records ↔ ∃ index, arena.Holds index ∧ arena.get index = record := by
  rw [records_eq_map_get]
  simp

theorem get_mem_records (holds : arena.Holds index) : arena.get index ∈ arena.records :=
  mem_records.mpr ⟨index, holds, rfl⟩

/-- The indices of the records that pass a test, in order. -/
def select (arena : Arena kind α) (test : α → Bool) : List (Index kind) :=
  arena.indices.filter fun index => test (arena.get index)

@[simp]
theorem mem_select {test : α → Bool} :
    index ∈ arena.select test ↔ arena.Holds index ∧ test (arena.get index) := by
  simp [select]

/-- The selected records are those that pass the test. -/
theorem map_get_select (arena : Arena kind α) (test : α → Bool) :
    (arena.select test).map arena.get = arena.records.filter test := by
  rw [records_eq_map_get, List.filter_map]
  rfl

theorem nodup_select (arena : Arena kind α) (test : α → Bool) : (arena.select test).Nodup :=
  arena.nodup_indices.filter _

theorem select_push (arena : Arena kind α) (record : α) (test : α → Bool) :
    (arena.push record).select test =
      arena.select test ++ if test record then [arena.next] else [] := by
  have same : ∀ index ∈ arena.indices,
      test ((arena.push record).get index) = test (arena.get index) := by
    intro index member
    rw [get_push_of_holds (mem_indices.mp member)]
  rw [select, indices_push, List.filter_append, List.filter_congr same]
  cases passes : test record <;> simp [select, passes]

/-- Two arenas of one size whose records agree on a test have the same selection. -/
theorem select_congr {β : Type} [Inhabited β] {first : Arena kind α} {second : Arena kind β}
    {test : α → Bool} {other : β → Bool} (size : first.size = second.size)
    (same : ∀ index, first.Holds index → test (first.get index) = other (second.get index)) :
    first.select test = second.select other := by
  have indices : first.indices = second.indices := by simp [Arena.indices, size]
  rw [select, select, ← indices]
  apply List.filter_congr
  intro index member
  exact same index (mem_indices.mp member)

theorem select_map {test : α → Bool} (unseen : ∀ record, test (change record) = test record) :
    (arena.map change).select test = arena.select test := by
  apply select_congr (size_map ..)
  intro index holds
  rw [get_map (holds_map.mp holds), unseen]

/-- Nothing is selected when no record passes. -/
theorem select_eq_nil {test : α → Bool}
    (fails : ∀ index, arena.Holds index → test (arena.get index) = false) :
    arena.select test = [] := by
  rw [select, List.filter_eq_nil_iff]
  intro index member
  simp [fails index (mem_indices.mp member)]

end Get
end DomainLang.Arena

