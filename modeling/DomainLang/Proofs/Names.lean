import DomainLang.Proofs.Coherence
import DomainLang.Proofs.Resolution

/-!
# What names resolve to

`Registry.Names` says that looking up a name gives the declarations of a program that have
the name: of one kind in the table of that kind, and of any kind in the shared one. It
holds after every declaration, so a name resolves exactly when one declaration has it and
is ambiguous exactly when several do.
-/

namespace DomainLang

open Resolved

variable {before after : Program}

namespace Program

/-- Whether a top-level declaration has a record. -/
def HoldsTopLevel (program : Program) : TopLevelIndex → Prop
  | .enumeration index => program.enumerations.Holds index
  | .interface index => program.interfaces.Holds index
  | .klass index => program.classes.Holds index
  | .association index => program.associations.Holds index
  | .projection index => program.projections.Holds index
  | .serviceGroup index => program.serviceGroups.Holds index

/-- The list by kind has every top-level element of the program. -/
@[simp]
theorem mem_topLevelByKind {program : Program} {index : TopLevelIndex} :
    index ∈ program.topLevelByKind ↔ program.HoldsTopLevel index := by
  cases index <;> simp [topLevelByKind, HoldsTopLevel]

theorem nodup_topLevelByKind (program : Program) : program.topLevelByKind.Nodup := by
  have nodup {kind : RecordKind} {α : Type} (arena : Arena kind α)
      {wrap : Index kind → TopLevelIndex} (injective : Function.Injective wrap) :
      (arena.indices.map wrap).Nodup := arena.nodup_indices.map injective
  simp only [topLevelByKind, List.nodup_append, List.mem_append, List.mem_map]
  refine ⟨⟨⟨⟨⟨nodup _ ?_, nodup _ ?_, ?_⟩, nodup _ ?_, ?_⟩, nodup _ ?_, ?_⟩, nodup _ ?_, ?_⟩,
    nodup _ ?_, ?_⟩
  all_goals first
    | (intro first second equal; cases equal; rfl)
    | (intro first member second other; rintro rfl; aesop)

section Additions

variable {program : Program} {index : TopLevelIndex}

theorem holdsTopLevel_addEnumeration (record : Enumeration) :
    ({ program with enumerations := program.enumerations.push record } : Program).HoldsTopLevel
        index ↔
      program.HoldsTopLevel index ∨ index = .enumeration program.enumerations.next := by
  cases index <;> simp [HoldsTopLevel, Arena.holds_push]

theorem holdsTopLevel_addInterface (record : Classifier) :
    ({ program with interfaces := program.interfaces.push record } : Program).HoldsTopLevel index ↔
      program.HoldsTopLevel index ∨ index = .interface program.interfaces.next := by
  cases index <;> simp [HoldsTopLevel, Arena.holds_push]

theorem holdsTopLevel_addClass (record : Resolved.Class) :
    ({ program with classes := program.classes.push record } : Program).HoldsTopLevel index ↔
      program.HoldsTopLevel index ∨ index = .klass program.classes.next := by
  cases index <;> simp [HoldsTopLevel, Arena.holds_push]

theorem holdsTopLevel_addAssociation (record : Association) :
    ({ program with associations := program.associations.push record } : Program).HoldsTopLevel
        index ↔
      program.HoldsTopLevel index ∨ index = .association program.associations.next := by
  cases index <;> simp [HoldsTopLevel, Arena.holds_push]

theorem holdsTopLevel_addProjection (record : Projection) :
    ({ program with projections := program.projections.push record } : Program).HoldsTopLevel
        index ↔
      program.HoldsTopLevel index ∨ index = .projection program.projections.next := by
  cases index <;> simp [HoldsTopLevel, Arena.holds_push]

theorem holdsTopLevel_addServiceGroup (record : ServiceGroup) :
    ({ program with serviceGroups := program.serviceGroups.push record } : Program).HoldsTopLevel
        index ↔
      program.HoldsTopLevel index ∨ index = .serviceGroup program.serviceGroups.next := by
  cases index <;> simp [HoldsTopLevel, Arena.holds_push]

end Additions

/-- The name of a top-level declaration. -/
def nameOf (program : Program) (index : TopLevelIndex) : String :=
  (program.header index).name.name

/-- The declarations of all kinds with a name. -/
def named (program : Program) (name : String) : List TopLevelIndex :=
  program.topLevelByKind.filter fun index => program.nameOf index = name

/-- The elements of a name are those that are called so. -/
@[simp]
theorem mem_named {program : Program} {name : String} {index : TopLevelIndex} :
    index ∈ program.named name ↔ program.HoldsTopLevel index ∧ program.nameOf index = name := by
  simp [named]

/-- Records that are kept keep their headers. -/
theorem Keeps.header_eq (keeps : before.Keeps after) (index : TopLevelIndex)
    (holds : before.HoldsTopLevel index) : after.header index = before.header index := by
  cases index with
  | enumeration index =>
    have same := congrArg Enumeration.header (keeps.enumerations index holds).2
    exact same
  | interface index =>
    have same := congrArg Classifier.header (keeps.interfaces index holds).2
    exact same
  | klass index =>
    have same := congrArg (fun klass : Resolved.Class => klass.header) (keeps.classes index holds).2
    exact same
  | association index =>
    have same := congrArg Association.header (keeps.associations index holds).2
    exact same
  | projection index =>
    have same := congrArg Projection.header (keeps.projections index holds).2
    exact same
  | serviceGroup index =>
    have same := congrArg ServiceGroup.header (keeps.serviceGroups index holds).2
    exact same

theorem Keeps.holdsTopLevel (keeps : before.Keeps after) {index : TopLevelIndex}
    (holds : before.HoldsTopLevel index) : after.HoldsTopLevel index := by
  cases index with
  | enumeration index => exact (keeps.enumerations index holds).1
  | interface index => exact (keeps.interfaces index holds).1
  | klass index => exact (keeps.classes index holds).1
  | association index => exact (keeps.associations index holds).1
  | projection index => exact (keeps.projections index holds).1
  | serviceGroup index => exact (keeps.serviceGroups index holds).1

/-- The second program has as many top-level declarations of each kind as the first. -/
structure SameTopLevel (before after : Program) : Prop where
  enumerations : after.enumerations.size = before.enumerations.size
  interfaces : after.interfaces.size = before.interfaces.size
  classes : after.classes.size = before.classes.size
  associations : after.associations.size = before.associations.size
  projections : after.projections.size = before.projections.size
  serviceGroups : after.serviceGroups.size = before.serviceGroups.size

namespace SameTopLevel

theorem topLevelByKind_eq (same : SameTopLevel before after) :
    after.topLevelByKind = before.topLevelByKind := by
  simp only [topLevelByKind, Arena.indices, same.enumerations, same.interfaces, same.classes,
    same.associations, same.projections, same.serviceGroups]

theorem holdsTopLevel_iff (same : SameTopLevel before after) (index : TopLevelIndex) :
    after.HoldsTopLevel index ↔ before.HoldsTopLevel index := by
  rw [← mem_topLevelByKind, same.topLevelByKind_eq, mem_topLevelByKind]

/-- Linking adds no declaration. -/
theorem of_unlinked_eq (same : after.unlinked = before.unlinked) : SameTopLevel before after where
  enumerations := congrArg (fun program => program.enumerations.size) same
  interfaces := by
    simpa [unlinked] using congrArg (fun program => program.interfaces.size) same
  classes := by
    simpa [unlinked] using congrArg (fun program => program.classes.size) same
  associations := by
    simpa [unlinked] using congrArg (fun program => program.associations.size) same
  projections := by
    simpa [unlinked] using congrArg (fun program => program.projections.size) same
  serviceGroups := by
    simpa [unlinked] using congrArg (fun program => program.serviceGroups.size) same

end SameTopLevel

/-- A declaration that was added is one more with its name. -/
theorem ofMatches_named_add {new : TopLevelIndex} (keeps : before.Keeps after)
    (fresh : ¬ before.HoldsTopLevel new)
    (held : ∀ index, after.HoldsTopLevel index ↔ before.HoldsTopLevel index ∨ index = new)
    (name : String) :
    Resolution.ofMatches (after.named name) =
      if after.nameOf new = name then (Resolution.ofMatches (before.named name)).merge new
      else .ofMatches (before.named name) := by
  have more : after.topLevelByKind.Perm (before.topLevelByKind ++ [new]) := by
    rw [List.perm_ext_iff_of_nodup after.nodup_topLevelByKind]
    · intro index
      simp [held]
    · rw [List.nodup_append]
      refine ⟨before.nodup_topLevelByKind, List.nodup_singleton _, ?_⟩
      rintro index member other isNew rfl
      rw [List.mem_singleton.mp isNew] at member
      exact fresh (mem_topLevelByKind.mp member)
  have old : before.topLevelByKind.filter (fun index => after.nameOf index = name) =
      before.named name := by
    apply List.filter_congr
    intro index member
    rw [nameOf, nameOf, keeps.header_eq index (mem_topLevelByKind.mp member)]
  have matched := Resolution.ofMatches_perm (more.filter fun index => after.nameOf index = name)
  rw [List.filter_append, old] at matched
  rw [named, matched]
  by_cases isNew : after.nameOf new = name
  · simp [isNew, Resolution.ofMatches_concat]
  · simp [isNew]

end Program

/-- A table gives the records of an arena by name. -/
def SymbolTable.Names {kind : RecordKind} {α : Type} [Inhabited α]
    (table : SymbolTable (Index kind)) (arena : Arena kind α) (header : α → Header) : Prop :=
  ∀ name, table.find name =
    .ofMatches (arena.select fun record => (header record).name.name = name)

namespace SymbolTable.Names

variable {kind : RecordKind} {α : Type} [Inhabited α] {table : SymbolTable (Index kind)}
  {arena after : Arena kind α} {header : α → Header}

/-- A table that names an arena names it with one record more. -/
theorem push (names : table.Names arena header) {record : α} {name : String}
    (called : (header record).name.name = name) :
    (table.insert name arena.next).Names (arena.push record) header := by
  intro other
  rw [SymbolTable.find_insert, names other, Arena.select_push, called]
  by_cases same : name = other
  · simp [same, Resolution.ofMatches_concat]
  · have apart : ¬ other = name := fun equal => same equal.symm
    simp [same, apart]

/-- A table names any arena of the same headers. -/
theorem congr (names : table.Names arena header) (size : after.size = arena.size)
    (same : ∀ index, arena.Holds index → header (after.get index) = header (arena.get index)) :
    table.Names after header := by
  intro name
  rw [names name]
  congr 1
  apply Arena.select_congr size.symm
  intro index holds
  rw [same index holds]

end SymbolTable.Names

/-- Lookups give the declarations of a program by name. -/
structure Registry.Names (registry : Registry) (program : Program) : Prop where
  topLevel : ∀ name, registry.resolve name = .ofMatches (program.named name)
  enumerations : registry.enumerations.Names program.enumerations (·.header)
  interfaces : registry.interfaces.Names program.interfaces (·.header)
  classes : registry.classes.Names program.classes (·.header)
  associations : registry.associations.Names program.associations (·.header)
  projections : registry.projections.Names program.projections (·.header)
  serviceGroups : registry.serviceGroups.Names program.serviceGroups (·.header)

namespace Registry.Names

variable {registry : Registry} {before after : Program}

/-- Names depend on headers only. -/
theorem of_keeps (names : registry.Names before) (keeps : before.Keeps after)
    (same : before.SameTopLevel after) : registry.Names after where
  topLevel name := by
    rw [names.topLevel name, Program.named, Program.named, same.topLevelByKind_eq]
    congr 1
    apply List.filter_congr
    intro index member
    rw [Program.nameOf, Program.nameOf,
      keeps.header_eq index (Program.mem_topLevelByKind.mp member)]
  enumerations := names.enumerations.congr same.enumerations fun index =>
    keeps.header_eq (.enumeration index)
  interfaces := names.interfaces.congr same.interfaces fun index =>
    keeps.header_eq (.interface index)
  classes := names.classes.congr same.classes fun index =>
    keeps.header_eq (.klass index)
  associations := names.associations.congr same.associations fun index =>
    keeps.header_eq (.association index)
  projections := names.projections.congr same.projections fun index =>
    keeps.header_eq (.projection index)
  serviceGroups := names.serviceGroups.congr same.serviceGroups fun index =>
    keeps.header_eq (.serviceGroup index)

end Registry.Names

namespace Registry.Names

variable {registry : Registry} {program : Program}

/-- Registering a declaration that was added. -/
theorem resolve_registerName {new : TopLevelIndex} {name : String} (names : registry.Names before)
    (keeps : before.Keeps after) (fresh : ¬ before.HoldsTopLevel new)
    (held : ∀ index, after.HoldsTopLevel index ↔ before.HoldsTopLevel index ∨ index = new)
    (called : after.nameOf new = name) (other : String) :
    (registry.registerName name new).resolve other = .ofMatches (after.named other) := by
  have table : (registry.registerName name new).topLevel = registry.topLevel.insert name new := by
    cases new <;> rfl
  have earlier := names.topLevel other
  rw [resolve] at earlier
  rw [resolve, table, SymbolTable.find_insert, earlier,
    Program.ofMatches_named_add keeps fresh held, called]
  by_cases same : name = other
  · simp [same]
  · have apart : ¬ other = name := fun equal => same equal.symm
    simp [same, apart]

theorem addEnumeration (names : registry.Names program) (record : Enumeration) :
    (registry.registerName record.header.name.name (.enumeration program.enumerations.next)).Names
      { program with enumerations := program.enumerations.push record } :=
  { names with
    topLevel := by
      apply names.resolve_registerName (.addEnumeration record)
      · exact Arena.not_holds_next _
      · exact fun _ => Program.holdsTopLevel_addEnumeration record
      · simp [Program.nameOf, Program.header]
    enumerations := names.enumerations.push rfl }

theorem addInterface (names : registry.Names program) (record : Classifier) :
    (registry.registerName record.header.name.name (.interface program.interfaces.next)).Names
      { program with interfaces := program.interfaces.push record } :=
  { names with
    topLevel := by
      apply names.resolve_registerName (.addInterface record)
      · exact Arena.not_holds_next _
      · exact fun _ => Program.holdsTopLevel_addInterface record
      · simp [Program.nameOf, Program.header]
    interfaces := names.interfaces.push rfl }

theorem addClass (names : registry.Names program) (record : Resolved.Class) :
    (registry.registerName record.header.name.name (.klass program.classes.next)).Names
      { program with classes := program.classes.push record } :=
  { names with
    topLevel := by
      apply names.resolve_registerName (.addClass record)
      · exact Arena.not_holds_next _
      · exact fun _ => Program.holdsTopLevel_addClass record
      · simp [Program.nameOf, Program.header]
    classes := names.classes.push rfl }

theorem addAssociation (names : registry.Names program) (record : Association) :
    (registry.registerName record.header.name.name (.association program.associations.next)).Names
      { program with associations := program.associations.push record } :=
  { names with
    topLevel := by
      apply names.resolve_registerName (.addAssociation record)
      · exact Arena.not_holds_next _
      · exact fun _ => Program.holdsTopLevel_addAssociation record
      · simp [Program.nameOf, Program.header]
    associations := names.associations.push rfl }

theorem addProjection (names : registry.Names program) (record : Projection) :
    (registry.registerName record.header.name.name (.projection program.projections.next)).Names
      { program with projections := program.projections.push record } :=
  { names with
    topLevel := by
      apply names.resolve_registerName (.addProjection record)
      · exact Arena.not_holds_next _
      · exact fun _ => Program.holdsTopLevel_addProjection record
      · simp [Program.nameOf, Program.header]
    projections := names.projections.push rfl }

theorem addServiceGroup (names : registry.Names program) (record : ServiceGroup) :
    (registry.registerName record.header.name.name (.serviceGroup program.serviceGroups.next)).Names
      { program with serviceGroups := program.serviceGroups.push record } :=
  { names with
    topLevel := by
      apply names.resolve_registerName (.addServiceGroup record)
      · exact Arena.not_holds_next _
      · exact fun _ => Program.holdsTopLevel_addServiceGroup record
      · simp [Program.nameOf, Program.header]
    serviceGroups := names.serviceGroups.push rfl }

end Registry.Names
end DomainLang
