import DomainLang.Program.Index

/-!
# Arenas

An arena holds the records of one kind in the order in which they were made.
Records are only ever added at the end, so an index stays valid. Reading past the
end gives the blank record; no index made by `Arena.push` does so.
-/

namespace DomainLang

/-- The records of one kind. -/
structure Arena (kind : RecordKind) (α : Type) where
  records : List α := []
  deriving Repr, Inhabited

namespace Arena

variable {kind : RecordKind} {α : Type}

/-- The number of records. -/
def size (arena : Arena kind α) : Nat :=
  arena.records.length

/-- The index of the next record. -/
def next (arena : Arena kind α) : Index kind :=
  ⟨arena.size⟩

/-- Add a record at `arena.next`. -/
def push (arena : Arena kind α) (record : α) : Arena kind α :=
  ⟨arena.records ++ [record]⟩

/-- The record at an index. -/
def get [Inhabited α] (arena : Arena kind α) (index : Index kind) : α :=
  arena.records.getD index.value default

/-- Change the record at an index. -/
def modify (arena : Arena kind α) (index : Index kind) (change : α → α) : Arena kind α :=
  ⟨arena.records.modify index.value change⟩

/-- Every index, in order. -/
def indices (arena : Arena kind α) : List (Index kind) :=
  (List.range arena.size).map Index.mk

/-- Change every record. -/
def map (arena : Arena kind α) (change : α → α) : Arena kind α :=
  ⟨arena.records.map change⟩

/-- Change every record, given its index. -/
def mapWithIndex (arena : Arena kind α) (change : Index kind → α → α) : Arena kind α :=
  ⟨arena.records.mapIdx fun position record => change ⟨position⟩ record⟩

end Arena
end DomainLang
