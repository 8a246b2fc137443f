import DomainLang.Proofs.Declaration.Elements

/-!
# The registry as a log

Whatever is registered, and in whichever order, a registry answers as a plain list of the calls
that succeeded would: a name resolves to what was registered under it, of any kind or of one,
and a context to the record of the one call that registered it. A call fails exactly when an
earlier one registered its context, and then it leaves everything as it was.

`SymbolTable.Lists` says this of one table and `Registry.Mirrors` of the registry, as what
every call preserves.
-/

namespace DomainLang

/-- The index, when the declaration is of a kind. -/
def TopLevelIndex.ofKind? : (kind : RecordKind) → TopLevelIndex → Option (Index kind)
  | .enumeration, enumeration index => some index
  | .interface, interface index => some index
  | .klass, klass index => some index
  | .association, association index => some index
  | .projection, projection index => some index
  | .serviceGroup, serviceGroup index => some index
  | _, _ => none

section Tables

variable {α : Type} {name : String} {entries : List (String × α)}

/-- What was registered under a name, in order. -/
def under (name : String) (entries : List (String × α)) : List α :=
  (entries.filter (·.1 = name)).map Prod.snd

theorem under_append (name : String) (entries more : List (String × α)) :
    under name (entries ++ more) = under name entries ++ under name more := by
  simp [under]

theorem under_singleton (name other : String) (value : α) :
    under other [(name, value)] = if other = name then [value] else [] := by
  by_cases same : name = other
  · simp [under, same]
  · simp [under, same, Ne.symm same]

/-- One more key is kept when it is new. -/
theorem keepFirst_id_concat {κ : Type} [DecidableEq κ] (keys : List κ) (key : κ) :
    keepFirst id (keys ++ [key]) =
      if key ∈ keys then keepFirst id keys else keepFirst id keys ++ [key] := by
  induction keys with
  | nil => simp [keepFirst]
  | cons first rest ih =>
    rw [List.cons_append, keepFirst, ih, keepFirst]
    by_cases here : key = first
    · subst here
      by_cases later : key ∈ rest <;> simp [later]
    · by_cases later : key ∈ rest <;> simp [here, later]

namespace SymbolTable

variable {table : SymbolTable α}

/-- The table has the names of a list, in the order of their first use, and finds what the
list has under a name. -/
structure Lists (table : SymbolTable α) (entries : List (String × α)) : Prop where
  names : table.entries.map Prod.fst = keepFirst id (entries.map Prod.fst)
  find_eq : ∀ name, table.find name = .ofMatches (under name entries)

theorem keys_mergeEntry (name : String) (value : α) (entries : List (String × Resolution α)) :
    (mergeEntry name value entries).map Prod.fst =
      if name ∈ entries.map Prod.fst then entries.map Prod.fst
      else entries.map Prod.fst ++ [name] := by
  induction entries with
  | nil => rfl
  | cons entry rest ih =>
    rw [mergeEntry]
    by_cases here : entry.1 = name
    · simp [here]
    · have apart : name ≠ entry.1 := Ne.symm here
      rw [if_neg here, List.map_cons, ih, List.map_cons]
      by_cases later : name ∈ rest.map Prod.fst
      · rw [if_pos later, if_pos (List.mem_cons_of_mem _ later)]
      · rw [if_neg later, if_neg (List.not_mem_cons_of_ne_of_not_mem apart later),
          List.cons_append]

namespace Lists

theorem empty : ({} : SymbolTable α).Lists [] :=
  ⟨rfl, fun _ => rfl⟩

theorem insert (lists : table.Lists entries) (name : String) (value : α) :
    (table.insert name value).Lists (entries ++ [(name, value)]) where
  names := by
    have listed : name ∈ keepFirst id (entries.map Prod.fst) ↔ name ∈ entries.map Prod.fst :=
      mem_keepFirst_id
    rw [SymbolTable.insert, keys_mergeEntry, lists.names, List.map_append, List.map_singleton,
      keepFirst_id_concat]
    simp only [listed]
  find_eq other := by
    rw [find_insert, lists.find_eq, under_append, under_singleton]
    by_cases same : other = name
    · rw [if_pos same, if_pos same, Resolution.ofMatches_concat]
    · rw [if_neg same, if_neg same, List.append_nil]

/-- The entries of the table, written out. -/
theorem entries_eq (lists : table.Lists entries) :
    table.entries = (keepFirst id (entries.map Prod.fst)).map fun name =>
      (name, .ofMatches (under name entries)) := by
  have distinct : (table.entries.map Prod.fst).Nodup := by
    rw [lists.names]
    simpa using nodup_keys_keepFirst id (entries.map Prod.fst)
  rw [← lists.names, List.map_map]
  refine (List.map_id _).symm.trans (List.map_congr_left ?_)
  rintro ⟨name, resolution⟩ member
  have found : table.find name = resolution := by
    rw [find, lookup_eq_some_of_mem distinct member]
    rfl
  simp [← lists.find_eq, found]

end Lists
end SymbolTable
end Tables

/-- What was registered of one kind. -/
def entriesOfKind (kind : RecordKind) (entries : List (String × TopLevelIndex)) :
    List (String × Index kind) :=
  entries.filterMap fun entry => (entry.2.ofKind? kind).map (entry.1, ·)

theorem under_entriesOfKind (name : String) (kind : RecordKind)
    (entries : List (String × TopLevelIndex)) :
    under name (entriesOfKind kind entries) =
      (under name entries).filterMap (TopLevelIndex.ofKind? kind) := by
  induction entries with
  | nil => rfl
  | cons entry rest ih =>
    obtain ⟨key, index⟩ := entry
    have split : entriesOfKind kind ((key, index) :: rest) =
        ((index.ofKind? kind).map (key, ·)).toList ++ entriesOfKind kind rest := by
      cases of : index.ofKind? kind <;> simp [entriesOfKind, of]
    rw [split, under_append, ih, ← List.singleton_append, under_append, List.filterMap_append,
      under_singleton]
    by_cases same : name = key
    · cases of : index.ofKind? kind <;> simp [same, of, under]
    · cases of : index.ofKind? kind <;> simp [same, under, Ne.symm same]

/-- A table of one kind takes part in a registration exactly when the declaration is of its
kind. -/
theorem SymbolTable.Lists.add {kind : RecordKind} {table after : SymbolTable (Index kind)}
    {entries : List (String × TopLevelIndex)} (lists : table.Lists (entriesOfKind kind entries))
    {name : String} {index : TopLevelIndex}
    (added : after = (index.ofKind? kind).elim table (table.insert name)) :
    after.Lists (entriesOfKind kind (entries ++ [(name, index)])) := by
  rw [added]
  cases of : index.ofKind? kind with
  | none => simpa [entriesOfKind, of] using lists
  | some found => simpa [entriesOfKind, of] using lists.insert name found

/-- Classes and interfaces under a name, taken together. -/
theorem ofMatches_classifiers (found : List TopLevelIndex) :
    Resolution.ofMatches (found.filterMap TopLevelIndex.classifier?) =
      .ofMatches ((found.filterMap (TopLevelIndex.ofKind? .klass)).map .klass ++
        (found.filterMap (TopLevelIndex.ofKind? .interface)).map .interface) := by
  apply Resolution.ofMatches_perm
  induction found with
  | nil => exact .nil
  | cons index rest ih =>
    cases index with
    | interface index => exact (ih.cons _).trans List.perm_middle.symm
    | klass index => exact ih.cons _
    | enumeration _ | association _ | projection _ | serviceGroup _ => exact ih

/-- A lookup of a classifier merges the lookups of a class and of an interface. -/
theorem Registry.findClassifier_eq {registry : Registry} {name : String}
    {classes : List ClassIndex} {interfaces : List InterfaceIndex}
    (foundClasses : registry.classes.find name = .ofMatches classes)
    (foundInterfaces : registry.interfaces.find name = .ofMatches interfaces) :
    registry.findClassifier name =
      .ofMatches (classes.map .klass ++ interfaces.map .interface) := by
  rw [findClassifier, foundClasses, foundInterfaces]
  rcases classes with _ | ⟨_, _ | ⟨_, _⟩⟩ <;> rcases interfaces with _ | ⟨_, _ | ⟨_, _⟩⟩ <;> rfl

/-- A call that registers something. -/
inductive Registration where
  /-- A top-level declaration, by name and by context. -/
  | declaration (name : String) (index : TopLevelIndex) (context : ContextKey)
  /-- Any record, by context only. -/
  | member (context : ContextKey) (record : RecordIndex)

namespace Registration

def context : Registration → ContextKey
  | declaration _ _ context | member context _ => context

def record : Registration → RecordIndex
  | declaration _ index _ => .topLevel index
  | member _ record => record

/-- The name and the declaration that is registered under it. -/
def entry? : Registration → Option (String × TopLevelIndex)
  | declaration name index _ => some (name, index)
  | member _ _ => none

/-- The call as a step of a compilation. -/
def phase : Registration → Phase Unit
  | declaration name index context => Phase.updateRegistry (·.register name index context)
  | member context record => Phase.registerContext context record

/-- The names in a log and what was registered under them, in order. -/
def entries (log : List Registration) : List (String × TopLevelIndex) :=
  log.filterMap entry?

end Registration

namespace Registry

open Registration (entries)

/-- The registry answers as the log of the calls that made it. -/
structure Reflects (registry : Registry) (log : List Registration) : Prop where
  resolve : ∀ name, registry.resolve name = .ofMatches (under name (entries log))
  enumerations : ∀ name, registry.enumerations.find name =
    .ofMatches ((under name (entries log)).filterMap (TopLevelIndex.ofKind? .enumeration))
  interfaces : ∀ name, registry.interfaces.find name =
    .ofMatches ((under name (entries log)).filterMap (TopLevelIndex.ofKind? .interface))
  classes : ∀ name, registry.classes.find name =
    .ofMatches ((under name (entries log)).filterMap (TopLevelIndex.ofKind? .klass))
  associations : ∀ name, registry.associations.find name =
    .ofMatches ((under name (entries log)).filterMap (TopLevelIndex.ofKind? .association))
  projections : ∀ name, registry.projections.find name =
    .ofMatches ((under name (entries log)).filterMap (TopLevelIndex.ofKind? .projection))
  serviceGroups : ∀ name, registry.serviceGroups.find name =
    .ofMatches ((under name (entries log)).filterMap (TopLevelIndex.ofKind? .serviceGroup))
  classifiers : ∀ name, registry.findClassifier name =
    .ofMatches ((under name (entries log)).filterMap TopLevelIndex.classifier?)
  names : registry.names = (keepFirst id ((entries log).map Prod.fst)).map fun name =>
    (name, .ofMatches (under name (entries log)))
  once : (log.map Registration.context).Nodup
  lookup : ∀ call ∈ log, registry.lookup call.context = .ok call.record
  unknown : ∀ context, (∀ call ∈ log, call.context ≠ context) →
    registry.lookup context = .error (.unknownContext context)

/-- Every table lists what the log has for it. -/
structure Mirrors (registry : Registry) (log : List Registration) : Prop where
  topLevel : registry.topLevel.Lists (entries log)
  enumerations : registry.enumerations.Lists (entriesOfKind .enumeration (entries log))
  interfaces : registry.interfaces.Lists (entriesOfKind .interface (entries log))
  classes : registry.classes.Lists (entriesOfKind .klass (entries log))
  associations : registry.associations.Lists (entriesOfKind .association (entries log))
  projections : registry.projections.Lists (entriesOfKind .projection (entries log))
  serviceGroups : registry.serviceGroups.Lists (entriesOfKind .serviceGroup (entries log))
  contexts : registry.contexts = (log.map fun call => (call.context, call.record)).reverse
  once : (log.map Registration.context).Nodup

namespace Mirrors

variable {registry : Registry} {log : List Registration}

theorem empty : ({} : Registry).Mirrors [] :=
  ⟨.empty, .empty, .empty, .empty, .empty, .empty, .empty, rfl, .nil⟩

theorem mem_keys (mirrors : registry.Mirrors log) {context : ContextKey} :
    context ∈ registry.keys ↔ ∃ call ∈ log, call.context = context := by
  simp [keys, mirrors.contexts]

/-- A context that is new can be registered. -/
theorem registerContext (mirrors : registry.Mirrors log) {context : ContextKey}
    (new : context ∉ registry.keys) (record : RecordIndex) :
    Mirrors { registry with contexts := (context, record) :: registry.contexts }
      (log ++ [.member context record]) := by
  have same : entries (log ++ [.member context record]) = entries log := by
    simp [entries, Registration.entry?]
  have absent : context ∉ log.map Registration.context := by
    simpa [mirrors.mem_keys] using new
  constructor
  case contexts => simp [mirrors.contexts, Registration.context, Registration.record]
  case once => simpa [List.nodup_append, Registration.context] using
    ⟨mirrors.once, fun call member equal => absent (List.mem_map.mpr ⟨call, member, equal⟩)⟩
  all_goals rw [same]
  exacts [mirrors.topLevel, mirrors.enumerations, mirrors.interfaces, mirrors.classes,
    mirrors.associations, mirrors.projections, mirrors.serviceGroups]

/-- A name of a new context is added to the shared table and to the one of its kind. -/
theorem register (mirrors : registry.Mirrors log) {context : ContextKey}
    (new : context ∉ registry.keys) (name : String) (index : TopLevelIndex) :
    Mirrors ({ registry with
        contexts := (context, .topLevel index) :: registry.contexts }.registerName name index)
      (log ++ [.declaration name index context]) := by
  have more : entries (log ++ [.declaration name index context]) =
      entries log ++ [(name, index)] := by
    simp [entries, Registration.entry?]
  have registered := mirrors.registerContext new (.topLevel index)
  constructor
  case contexts =>
    rw [Phase.contexts_registerName, registered.contexts, List.map_append, List.map_append]
    rfl
  case once => simpa [Registration.context] using registered.once
  all_goals rw [more]
  case topLevel =>
    have shared := mirrors.topLevel.insert name index
    cases index <;> exact shared
  case enumerations => exact mirrors.enumerations.add (by cases index <;> rfl)
  case interfaces => exact mirrors.interfaces.add (by cases index <;> rfl)
  case classes => exact mirrors.classes.add (by cases index <;> rfl)
  case associations => exact mirrors.associations.add (by cases index <;> rfl)
  case projections => exact mirrors.projections.add (by cases index <;> rfl)
  case serviceGroups => exact mirrors.serviceGroups.add (by cases index <;> rfl)

theorem reflects (mirrors : registry.Mirrors log) : registry.Reflects log := by
  have distinct : registry.keys.Nodup := by
    rw [keys, mirrors.contexts, List.map_reverse, List.nodup_reverse, List.map_map]
    exact mirrors.once
  have ofKind {kind : RecordKind} {table : SymbolTable (Index kind)}
      (lists : table.Lists (entriesOfKind kind (entries log))) (name : String) :
      table.find name =
        .ofMatches ((under name (entries log)).filterMap (TopLevelIndex.ofKind? kind)) := by
    rw [lists.find_eq, under_entriesOfKind]
  constructor
  case resolve => exact mirrors.topLevel.find_eq
  case enumerations => exact ofKind mirrors.enumerations
  case interfaces => exact ofKind mirrors.interfaces
  case classes => exact ofKind mirrors.classes
  case associations => exact ofKind mirrors.associations
  case projections => exact ofKind mirrors.projections
  case serviceGroups => exact ofKind mirrors.serviceGroups
  case classifiers =>
    intro name
    rw [ofMatches_classifiers]
    exact findClassifier_eq (ofKind mirrors.classes name) (ofKind mirrors.interfaces name)
  case names => exact mirrors.topLevel.entries_eq
  case once => exact mirrors.once
  case lookup =>
    intro call member
    apply lookup_of_mem distinct
    rw [mirrors.contexts, List.mem_reverse]
    exact List.mem_map_of_mem member
  case unknown =>
    intro context absent
    have missing : registry.contexts.lookup context = none := by
      rw [List.lookup_eq_none_iff]
      intro entry member
      rw [mirrors.contexts, List.mem_reverse] at member
      obtain ⟨call, among, rfl⟩ := List.mem_map.mp member
      simpa using Ne.symm (absent call among)
    rw [Registry.lookup, missing]

end Mirrors
end Registry

/-- A context that is known is refused, and the registry stays as it was. -/
theorem Registry.registerContext_of_mem {registry : Registry} {context : ContextKey}
    (known : context ∈ registry.keys) (record : RecordIndex) :
    registry.registerContext context record = (.error (.duplicateContext context), registry) := by
  rw [registerContext, if_pos]
  simpa [keys] using known

/-- The context of a declaration is looked at before its name is registered. -/
theorem Registry.register_of_mem {registry : Registry} {context : ContextKey}
    (known : context ∈ registry.keys) (name : String) (index : TopLevelIndex) :
    registry.register name index context = (.error (.duplicateContext context), registry) := by
  rw [register, registerContext_of_mem known]

/-- A workspace and the calls on its registry that succeeded, in order. -/
structure Session where
  workspace : Workspace
  log : List Registration := []

namespace Session

/-- A workspace of which the registry is new. -/
def start (workspace : Workspace) : Session :=
  { workspace := { workspace with registry := {} } }

/-- One call, which is logged if it succeeds. -/
def call (session : Session) (call : Registration) : Session :=
  let (result, after) := call.phase.perform session.workspace
  { workspace := after
    log := if result.isOk then session.log ++ [call] else session.log }

/-- A sequence of calls on a new registry. -/
def run (workspace : Workspace) (calls : List Registration) : Session :=
  calls.foldl call (start workspace)

/-- A call succeeds exactly when its context is new; one that fails changes nothing. -/
theorem perform_phase {session : Session} (mirrors : session.workspace.registry.Mirrors session.log)
    (call : Registration) :
    (∃ earlier ∈ session.log, earlier.context = call.context) ∧
        call.phase.perform session.workspace =
          (.error (.duplicateContext call.context), session.workspace) ∨
      (¬ ∃ earlier ∈ session.log, earlier.context = call.context) ∧
        ∃ registry, registry.Mirrors (session.log ++ [call]) ∧
          call.phase.perform session.workspace =
            (.ok (), { session.workspace with registry }) := by
  rw [← mirrors.mem_keys]
  by_cases known : call.context ∈ session.workspace.registry.keys
  · refine .inl ⟨known, ?_⟩
    cases call with
    | declaration name index context =>
      rw [Registration.context] at known
      rw [Registration.phase, Phase.perform_updateRegistry, Registry.register_of_mem known]
      rfl
    | member context record =>
      rw [Registration.context] at known
      rw [Registration.phase, Phase.registerContext, Phase.perform_updateRegistry,
        Registry.registerContext_of_mem known]
      rfl
  · refine .inr ⟨known, ?_⟩
    cases call with
    | declaration name index context =>
      exact ⟨_, mirrors.register known name index, Phase.returns_register.mpr ⟨known, rfl⟩⟩
    | member context record =>
      exact ⟨_, mirrors.registerContext known record,
        Phase.returns_registerContext.mpr ⟨known, rfl⟩⟩

/-- What every call preserves. -/
theorem mirrors_call {session : Session} (mirrors : session.workspace.registry.Mirrors session.log)
    (call : Registration) :
    (session.call call).workspace.registry.Mirrors (session.call call).log := by
  rcases perform_phase mirrors call with ⟨-, failed⟩ | ⟨-, registry, more, succeeded⟩
  · rw [Session.call, failed]
    exact mirrors
  · rw [Session.call, succeeded]
    exact more

theorem mirrors_run (workspace : Workspace) (calls : List Registration) :
    (run workspace calls).workspace.registry.Mirrors (run workspace calls).log := by
  induction calls using List.reverseRecOn with
  | nil => exact .empty
  | append_singleton calls call ih =>
    rw [run, List.foldl_append]
    exact mirrors_call ih call

/-- After any calls, failing ones included, the registry answers as the log of those that
succeeded. The next call fails exactly when one of these registered its context, and then it
changes nothing. -/
theorem run_reflects_log (workspace : Workspace) (calls : List Registration) :
    (run workspace calls).workspace.registry.Reflects (run workspace calls).log ∧
      (∀ (call : Registration) (fault : Fault),
        (call.phase.perform (run workspace calls).workspace).1 = .error fault ↔
          fault = .duplicateContext call.context ∧
            ∃ earlier ∈ (run workspace calls).log, earlier.context = call.context) ∧
      ∀ (call : Registration) (fault : Fault),
        (call.phase.perform (run workspace calls).workspace).1 = .error fault →
          run workspace (calls ++ [call]) = run workspace calls := by
  have mirrors := mirrors_run workspace calls
  refine ⟨mirrors.reflects, ?_, ?_⟩
  · intro call fault
    rcases perform_phase mirrors call with ⟨known, failed⟩ | ⟨new, registry, -, succeeded⟩
    · rw [failed, Except.error.injEq, eq_comm, and_iff_left known]
    · rw [succeeded]
      simpa using fun _ => by simpa using new
  · intro call fault fails
    rcases perform_phase mirrors call with ⟨known, failed⟩ | ⟨new, registry, -, succeeded⟩
    · rw [run, List.foldl_append, List.foldl_cons, List.foldl_nil, ← run, Session.call, failed]
      rfl
    · rw [succeeded] at fails
      cases fails

end Session
end DomainLang
