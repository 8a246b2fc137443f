import DomainLang.Proofs.Arena
import Mathlib.Tactic.MkIffOfInductiveProp

/-!
# Ownership

The records of an arena belong to owners, each of which keeps a list of its own. `Owned`
says that such a list is the selection of the records that name the owner, in the order
in which they were made, except for owners that are still being declared and whose
lists are not filled in yet. From it follows that a record is listed exactly once by its
owner and by no other.
-/

namespace DomainLang

/-- Owners list the records that name them, unless they are exempt. -/
@[mk_iff]
structure Owned {kind : RecordKind} {α Owner : Type} [Inhabited α] [DecidableEq Owner]
    (held exempt : Owner → Prop) (arena : Arena kind α) (owner : α → Owner)
    (listed : Owner → List (Index kind)) : Prop where
  listed_eq : ∀ holder, held holder → ¬ exempt holder →
    listed holder = arena.select fun record => owner record = holder
  held_owner : ∀ index, arena.Holds index → held (owner (arena.get index))

namespace Owned

variable {kind : RecordKind} {α Owner : Type} [Inhabited α] [DecidableEq Owner]
  {held heldAfter exempt exemptAfter : Owner → Prop} {arena after : Arena kind α}
  {owner : α → Owner} {listed listedAfter : Owner → List (Index kind)}

/-- Without owners and records nothing is left to check. -/
theorem empty (noOwners : ∀ holder, ¬ held holder) :
    Owned held exempt ({} : Arena kind α) owner listed where
  listed_eq holder holds := absurd holds (noOwners holder)
  held_owner _ holds := absurd holds (Nat.not_lt_zero _)

/-- A record is in the list of its owner and in no other. -/
theorem mem_listed (owned : Owned held exempt arena owner listed) {holder : Owner}
    (holds : held holder) (settled : ¬ exempt holder) {index : Index kind} :
    index ∈ listed holder ↔ arena.Holds index ∧ owner (arena.get index) = holder := by
  simp [owned.listed_eq holder holds settled]

/-- Only what is read about owners, owners' lists and the arena matters. -/
theorem congr (owned : Owned held exempt arena owner listed)
    (sameHeld : ∀ holder, heldAfter holder ↔ held holder)
    (more : ∀ holder, exempt holder → exemptAfter holder)
    (sameListed : ∀ holder, held holder → listedAfter holder = listed holder)
    (sameSize : after.size = arena.size)
    (sameOwner : ∀ index, arena.Holds index → owner (after.get index) = owner (arena.get index)) :
    Owned heldAfter exemptAfter after owner listedAfter where
  listed_eq holder holds settled := by
    have heldBefore := (sameHeld holder).mp holds
    rw [sameListed holder heldBefore,
      owned.listed_eq holder heldBefore fun isOpen => settled (more holder isOpen)]
    apply Arena.select_congr sameSize.symm
    intro index holdsIndex
    rw [sameOwner index holdsIndex]
  held_owner index holdsIndex := by
    have before : arena.Holds index := by simpa [Arena.Holds, sameSize] using holdsIndex
    rw [sameHeld, sameOwner index before]
    exact owned.held_owner index before

/-- A new record is appended to the list of its owner, or its owner is exempt. -/
theorem push (owned : Owned held exempt arena owner listed) (record : α)
    (sameHeld : ∀ holder, heldAfter holder ↔ held holder) (holdsOwner : held (owner record))
    (own : exempt (owner record) ∨
      listedAfter (owner record) = listed (owner record) ++ [arena.next])
    (sameListed : ∀ holder, held holder → holder ≠ owner record →
      listedAfter holder = listed holder) :
    Owned heldAfter exempt (arena.push record) owner listedAfter where
  listed_eq holder holds settled := by
    have heldBefore := (sameHeld holder).mp holds
    rw [Arena.select_push]
    by_cases equal : holder = owner record
    · subst equal
      rcases own with isExempt | appended
      · exact absurd isExempt settled
      · rw [appended, owned.listed_eq _ heldBefore settled]
        simp
    · have other : ¬ owner record = holder := fun same => equal same.symm
      rw [sameListed holder heldBefore equal, owned.listed_eq holder heldBefore settled]
      simp [other]
  held_owner index holdsIndex := by
    rw [sameHeld]
    rcases Arena.holds_push.mp holdsIndex with old | rfl
    · rw [Arena.get_push_of_holds old]
      exact owned.held_owner index old
    · rw [Arena.get_push_next]
      exact holdsOwner

/-- A new record is not in a list yet, so what the list says stays the same. -/
theorem map_push {β : Type} (owned : Owned held exempt arena owner listed) {holder : Owner}
    (holds : held holder) (settled : ¬ exempt holder) (view : α → β) (record : α) :
    (listed holder).map (fun index => view ((arena.push record).get index)) =
      (listed holder).map fun index => view (arena.get index) := by
  apply List.map_congr_left
  intro index member
  rw [Arena.get_push_of_holds ((owned.mem_listed holds settled).mp member).1]

/-- Nothing belongs to an owner that has no record. -/
theorem select_eq_nil (owned : Owned held exempt arena owner listed) {holder : Owner}
    (absent : ¬ held holder) : arena.select (fun record => owner record = holder) = [] := by
  apply Arena.select_eq_nil
  intro index holdsIndex
  apply decide_eq_false
  rintro rfl
  exact absent (owned.held_owner index holdsIndex)

/-- A new owner starts with an empty list. -/
theorem addOwner (owned : Owned held exempt arena owner listed) {new : Owner}
    (moreHeld : ∀ holder, heldAfter holder ↔ held holder ∨ holder = new) (fresh : ¬ held new)
    (more : ∀ holder, exempt holder → exemptAfter holder) (empty : listedAfter new = [])
    (sameListed : ∀ holder, held holder → listedAfter holder = listed holder) :
    Owned heldAfter exemptAfter arena owner listedAfter where
  listed_eq holder holds settled := by
    rcases (moreHeld holder).mp holds with old | rfl
    · rw [sameListed holder old, owned.listed_eq holder old fun isOpen =>
        settled (more holder isOpen)]
    · rw [empty, owned.select_eq_nil fresh]
  held_owner index holdsIndex := (moreHeld _).mpr (.inl (owned.held_owner index holdsIndex))

/-- The only exempt owner is settled by filling in its list. -/
theorem close {ownerKind : RecordKind} {β : Type} [Inhabited β] {owners : Arena ownerKind β}
    {owner : α → Index ownerKind} {lists : β → List (Index kind)} {settled : Index ownerKind}
    (owned : Owned owners.Holds (some settled = some ·) arena owner fun holder =>
      lists (owners.get holder)) {change : β → β} (holds : owners.Holds settled)
    (filled : lists (change (owners.get settled)) =
      arena.select fun record => owner record = settled) :
    Owned (owners.modify settled change).Holds (none = some ·) arena owner fun holder =>
      lists ((owners.modify settled change).get holder) where
  listed_eq holder held _ := by
    by_cases equal : holder = settled
    · rw [equal, Arena.get_modify_self holds, filled]
    · rw [Arena.get_modify_of_ne equal]
      exact owned.listed_eq holder (Arena.holds_modify.mp held) fun same =>
        equal (Option.some.inj same).symm
  held_owner index held := Arena.holds_modify.mpr (owned.held_owner index held)

end Owned
end DomainLang
