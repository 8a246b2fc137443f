import DomainLang.Program.Registry
import Mathlib.Data.List.Perm.Basic

/-!
# Outcomes of lookups

A lookup resolves exactly when there is one match, so its outcome depends on the
matches but not on their order. `SymbolTable.find_insert` says what registering a
name does to every later lookup.
-/

namespace DomainLang

namespace Resolution

variable {α β : Type} {found : List α} {resolution : Resolution α}

@[simp]
theorem ofMatches_eq_notFound : ofMatches found = notFound ↔ found = [] := by
  rcases found with _ | ⟨_, _ | ⟨_, _⟩⟩ <;> simp [ofMatches]

@[simp]
theorem ofMatches_eq_resolved {value : α} : ofMatches found = resolved value ↔ found = [value] := by
  rcases found with _ | ⟨_, _ | ⟨_, _⟩⟩ <;> simp [ofMatches]

theorem ofMatches_eq_ambiguous : ofMatches found = ambiguous ↔ 2 ≤ found.length := by
  rcases found with _ | ⟨_, _ | ⟨_, _⟩⟩ <;> simp [ofMatches]

/-- A lookup that is not ambiguous had at most one match. -/
theorem eq_of_ofMatches_ne_ambiguous (clear : ofMatches found ≠ ambiguous) {first second : α}
    (isFirst : first ∈ found) (isSecond : second ∈ found) : first = second := by
  rcases found with _ | ⟨_, _ | ⟨_, _⟩⟩
  · cases isFirst
  · rw [List.mem_singleton.mp isFirst, List.mem_singleton.mp isSecond]
  · exact absurd rfl clear

/-- A lookup with at most one match is not ambiguous. -/
theorem ofMatches_ne_ambiguous (distinct : found.Nodup)
    (same : ∀ first ∈ found, ∀ second ∈ found, first = second) : ofMatches found ≠ ambiguous := by
  rcases found with _ | ⟨first, _ | ⟨second, rest⟩⟩
  · nofun
  · nofun
  · have equal := same first (by simp) second (by simp)
    simp [equal] at distinct

/-- One more match is one more candidate. -/
theorem ofMatches_concat (found : List α) (value : α) :
    ofMatches (found ++ [value]) = (ofMatches found).merge value := by
  rcases found with _ | ⟨_, _ | ⟨_, _⟩⟩ <;> rfl

/-- The order of the matches does not matter. -/
theorem ofMatches_perm {first second : List α} (same : first.Perm second) :
    ofMatches first = ofMatches second := by
  rcases second with _ | ⟨value, _ | ⟨other, rest⟩⟩
  · rw [List.perm_nil.mp same]
  · rw [List.perm_singleton.mp same]
  · have several : 2 ≤ first.length := by simp [same.length_eq]
    rw [ofMatches_eq_ambiguous.mpr several]
    rfl

@[simp]
theorem map_eq_resolved {f : α → β} {value : β} :
    resolution.map f = resolved value ↔
      ∃ source, resolution = resolved source ∧ f source = value := by
  cases resolution <;> simp [map]

@[simp]
theorem map_eq_ambiguous {f : α → β} : resolution.map f = ambiguous ↔ resolution = ambiguous := by
  cases resolution <;> simp [map]

@[simp]
theorem andThen_resolved (value : α) (next : α → Resolution β) :
    (resolved value).andThen next = next value := rfl

@[simp]
theorem value?_eq_some {value : α} :
    resolution.value? = some value ↔ resolution = resolved value := by
  cases resolution <;> simp [value?]

@[simp]
theorem isResolved_iff : resolution.isResolved = true ↔ ∃ value, resolution = resolved value := by
  cases resolution <;> simp [isResolved]

@[simp]
theorem isAmbiguous_iff : resolution.isAmbiguous = true ↔ resolution = ambiguous := by
  cases resolution <;> simp [isAmbiguous]

@[simp]
theorem isNotFound_iff : resolution.isNotFound = true ↔ resolution = notFound := by
  cases resolution <;> simp [isNotFound]

/-- A lookup that neither failed nor was ambiguous has a value. -/
theorem exists_resolved (found : resolution ≠ notFound) (single : resolution ≠ ambiguous) :
    ∃ value, resolution = resolved value := by
  cases resolution with
  | resolved value => exact ⟨value, rfl⟩
  | ambiguous => exact absurd rfl single
  | notFound => exact absurd rfl found

end Resolution

namespace SymbolTable

variable {α : Type}

/-- Only the entry of the name that is registered changes. -/
theorem lookup_mergeEntry (name other : String) (value : α)
    (entries : List (String × Resolution α)) :
    ((mergeEntry name value entries).lookup other).getD .notFound =
      if other = name then ((entries.lookup other).getD .notFound).merge value
      else (entries.lookup other).getD .notFound := by
  induction entries with
  | nil =>
    by_cases equal : other = name
    · simp [mergeEntry, equal, Resolution.merge]
    · simp [mergeEntry, equal, List.lookup_cons, beq_eq_false_iff_ne.mpr equal]
  | cons entry rest ih =>
    obtain ⟨key, outcome⟩ := entry
    by_cases here : key = name
    · by_cases equal : other = name
      · simp [mergeEntry, here, equal]
      · simp [mergeEntry, here, equal, List.lookup_cons, beq_eq_false_iff_ne.mpr equal]
    · by_cases equal : other = key
      · simp [mergeEntry, here, equal]
      · simp only [mergeEntry, here, if_false, List.lookup_cons, beq_eq_false_iff_ne.mpr equal]
        exact ih

theorem find_insert (table : SymbolTable α) (name other : String) (value : α) :
    (table.insert name value).find other =
      if other = name then (table.find other).merge value else table.find other :=
  lookup_mergeEntry name other value table.entries

end SymbolTable
end DomainLang
