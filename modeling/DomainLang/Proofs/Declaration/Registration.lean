import DomainLang.Declaration.TopLevel
import DomainLang.Proofs.Collection
import DomainLang.Proofs.Growth
import DomainLang.Proofs.Phase

/-!
# What declaring leaves alone

Declaring the nodes of a unit registers one context per record and otherwise changes the
program only, which keeps all its records. `Workspace.Declares` says this together with the
ids of the nodes that got records, in order, so that runs compose by appending lists of
ids. A registered context is found again as long as no context is registered twice.
-/

namespace DomainLang

variable {before after : Workspace}

namespace Syntax

/-- The nodes of a segment that get records. -/
def UrlSegment.recordIds : UrlSegment → List NodeId
  | constant _ => []
  | parameter declaration => [declaration.id]

/-- The nodes of a url that get records. -/
def Url.recordIds (url : Url) : List NodeId :=
  url.id :: (url.path.flatMap UrlSegment.recordIds ++ url.queryParameters.map (·.id) ++
    url.services.map (·.id))

/-- The nodes inside a declaration that get records with it. -/
def Declaration.innerIds : Declaration → List NodeId
  | association declaration => [declaration.source.id, declaration.target.id]
  | serviceGroup declaration => declaration.urls.flatMap Url.recordIds
  | enumeration _ | interface _ | klass _ | projection _ => []

/-- The nodes of a declaration that get records, members apart. -/
def Declaration.recordIds (declaration : Declaration) : List NodeId :=
  declaration.innerIds ++ [declaration.node.id]

def Member.id : Member → NodeId
  | property declaration => declaration.id
  | endSignature declaration => declaration.id

end Syntax

namespace Registry

/-- The contexts that are registered, latest first. -/
def keys (registry : Registry) : List ContextKey :=
  registry.contexts.map Prod.fst

/-- A registered context is found when no context is registered twice. -/
theorem lookup_of_mem {registry : Registry} (distinct : registry.keys.Nodup)
    {context : ContextKey} {record : RecordIndex} (member : (context, record) ∈ registry.contexts) :
    registry.lookup context = .ok record := by
  simp [lookup, lookup_eq_some_of_mem distinct member]

/-- None of the contexts is registered, and none occurs twice. -/
structure Fresh (registry : Registry) (keys : List ContextKey) : Prop where
  distinct : keys.Nodup
  new : ∀ key ∈ keys, key ∉ registry.keys

end Registry

namespace Workspace

/-- Only the program and the registry changed, the program kept its records, and the given
contexts were registered. -/
structure Grows (keys : List ContextKey) (before after : Workspace) : Prop where
  surroundings : after = { before with program := after.program, registry := after.registry }
  contexts : ∃ added : List (ContextKey × RecordIndex),
    after.registry.contexts = added ++ before.registry.contexts ∧
      added.map Prod.fst = keys.reverse
  keeps : before.program.Keeps after.program
  nodup : before.registry.keys.Nodup → after.registry.keys.Nodup

/-- The workspace grew by contexts of nodes of a unit and no name was registered. -/
structure Declares (unit : UnitId) (ids : List NodeId) (before after : Workspace) : Prop
    extends Grows (ids.map (ContextKey.mk unit)) before after where
  registry : after.registry = { before.registry with contexts := after.registry.contexts }

namespace Grows

variable {keys more : List ContextKey} {before middle after : Workspace}

theorem refl (workspace : Workspace) : Grows [] workspace workspace :=
  ⟨rfl, ⟨[], rfl, rfl⟩, .refl _, id⟩

theorem trans (first : Grows keys before middle) (second : Grows more middle after) :
    Grows (keys ++ more) before after where
  surroundings := by
    rw [second.surroundings, first.surroundings]
  contexts := by
    obtain ⟨added, contexts, firstKeys⟩ := first.contexts
    obtain ⟨later, laterContexts, laterKeys⟩ := second.contexts
    refine ⟨later ++ added, ?_, ?_⟩
    · rw [laterContexts, contexts, List.append_assoc]
    · simp [firstKeys, laterKeys]
  keeps := first.keeps.trans second.keeps
  nodup := second.nodup ∘ first.nodup

theorem units_eq (grows : Grows keys before after) : after.units = before.units := by
  rw [grows.surroundings]

theorem walk_eq (grows : Grows keys before after) : after.walk = before.walk := by
  rw [grows.surroundings]

theorem expansionDepth_eq (grows : Grows keys before after) :
    after.expansionDepth = before.expansionDepth := by
  rw [grows.surroundings]

/-- Units, open scopes and the depth of expansion do not matter. -/
theorem relocate (grows : Grows keys before after) (units : List CompilationUnit) (walk : Walk)
    (expansionDepth : Nat) :
    Grows keys { before with units, walk, expansionDepth }
      { after with units, walk, expansionDepth } := by
  refine ⟨?_, grows.contexts, grows.keeps, grows.nodup⟩
  rw [grows.surroundings]

/-- The open scopes do not matter. -/
theorem rewalk (grows : Grows keys before after) (walk : Walk) :
    Grows keys { before with walk } { after with walk } := by
  refine ⟨?_, grows.contexts, grows.keeps, grows.nodup⟩
  rw [grows.surroundings]

theorem keys_eq (grows : Grows keys before after) :
    after.registry.keys = keys.reverse ++ before.registry.keys := by
  obtain ⟨added, contexts, addedKeys⟩ := grows.contexts
  rw [Registry.keys, contexts, List.map_append, addedKeys]
  rfl

/-- What was registered stays registered. -/
theorem contexts_subset (grows : Grows keys before after) :
    before.registry.contexts ⊆ after.registry.contexts := by
  obtain ⟨added, contexts, -⟩ := grows.contexts
  rw [contexts]
  exact List.subset_append_right added _

end Grows

namespace Declares

variable {unit : UnitId} {ids more : List NodeId} {before middle after : Workspace}

theorem refl (unit : UnitId) (workspace : Workspace) : Declares unit [] workspace workspace :=
  ⟨.refl workspace, rfl⟩

theorem trans (first : Declares unit ids before middle)
    (second : Declares unit more middle after) : Declares unit (ids ++ more) before after where
  toGrows := by
    rw [List.map_append]
    exact first.toGrows.trans second.toGrows
  registry := by
    rw [second.registry, first.registry]

/-- A change of the program that keeps its records. -/
theorem modifyProgram {change : Program → Program}
    (keeps : before.program.Keeps (change before.program)) :
    Declares unit [] before (before.modifyProgram change) :=
  ⟨⟨rfl, ⟨[], rfl, rfl⟩, keeps, id⟩, rfl⟩

/-- A later change of the program that keeps the records there were at the start. -/
theorem thenModify (declares : Declares unit ids before middle) {change : Program → Program}
    (keeps : before.program.Keeps (change middle.program)) :
    Declares unit ids before (middle.modifyProgram change) := by
  refine ⟨⟨?_, declares.contexts, keeps, declares.nodup⟩, declares.registry⟩
  rw [declares.surroundings]
  rfl

end Declares

end Workspace

namespace Registry.Fresh

variable {keys more : List ContextKey} {registry : Registry}

theorem left (fresh : registry.Fresh (keys ++ more)) : registry.Fresh keys where
  distinct := (List.nodup_append.mp fresh.distinct).1
  new key member := fresh.new key (List.mem_append_left more member)

/-- The contexts that are still to come stay fresh. -/
theorem right (fresh : before.registry.Fresh (keys ++ more)) (grows : before.Grows keys after) :
    after.registry.Fresh more where
  distinct := (List.nodup_append.mp fresh.distinct).2.1
  new key member registered := by
    rw [grows.keys_eq, List.mem_append, List.mem_reverse] at registered
    rcases registered with early | old
    · exact (List.nodup_append.mp fresh.distinct).2.2 key early key member rfl
    · exact fresh.new key (List.mem_append_right keys member) old

theorem of_grows_nil (fresh : before.registry.Fresh keys) (grows : before.Grows [] after) :
    after.registry.Fresh keys := by
  have split : before.registry.Fresh ([] ++ keys) := fresh
  exact split.right grows

end Registry.Fresh

namespace Phase

variable {α β : Type}

/-- Registering the context of a node. -/
theorem declares_registerContext {unit : UnitId} {id : NodeId} {record : RecordIndex}
    {result : Unit} (returns : (registerContext ⟨unit, id⟩ record).Returns before result after) :
    before.Declares unit [id] after ∧ after.program = before.program ∧
      ((⟨unit, id⟩ : ContextKey), record) ∈ after.registry.contexts := by
  obtain ⟨new, rfl⟩ := returns_registerContext.mp returns
  refine ⟨⟨⟨rfl, ⟨[(⟨unit, id⟩, record)], rfl, rfl⟩, .refl _, ?_⟩, rfl⟩, rfl, List.mem_cons_self⟩
  intro distinct
  exact List.nodup_cons.mpr ⟨new, distinct⟩

theorem succeeds_registerContext {context : ContextKey} {record : RecordIndex}
    (fresh : before.registry.Fresh [context]) : (registerContext context record).Succeeds before :=
  ⟨(), _, returns_registerContext.mpr ⟨fresh.new context (List.mem_singleton.mpr rfl), rfl⟩⟩

/-- A loop registers what its steps register. -/
theorem grows_mapM {items : List α} {step : α → Phase β} {keys : α → List ContextKey}
    {values : List β}
    (grows : ∀ item current value following, (step item).Returns current value following →
      current.Grows (keys item) following)
    (returns : (items.mapM step).Returns before values after) :
    before.Grows (items.flatMap keys) after := by
  apply returns.mapM_induction fun visited _ current => before.Grows (visited.flatMap keys) current
  · exact .refl before
  · intro visited _ item _ value current following _ grown stepped
    simpa using grown.trans (grows item current value following stepped)

/-- A loop succeeds when the contexts that all its steps register are fresh. -/
theorem succeeds_mapM {items : List α} {step : α → Phase β} {keys : α → List ContextKey}
    (invariant : Workspace → Prop) (start : invariant before)
    (fresh : before.registry.Fresh (items.flatMap keys))
    (succeeds : ∀ item ∈ items, ∀ current, invariant current → current.registry.Fresh (keys item) →
      (step item).Succeeds current)
    (grows : ∀ item ∈ items, ∀ current value following, invariant current →
      (step item).Returns current value following →
      current.Grows (keys item) following ∧ invariant following) :
    (items.mapM step).Succeeds before := by
  induction items generalizing before with
  | nil => simp
  | cons item rest ih =>
    rw [List.flatMap_cons] at fresh
    rw [List.mapM_cons]
    apply (succeeds item List.mem_cons_self before start fresh.left).bind
    intro value following returns
    obtain ⟨grown, kept⟩ := grows item List.mem_cons_self before value following start returns
    have remaining := ih kept (fresh.right grown)
      (fun other member => succeeds other (List.mem_cons_of_mem item member))
      (fun other member => grows other (List.mem_cons_of_mem item member))
    exact remaining.bind fun _ _ _ => succeeds_pure ..

/-- A loop that collects nothing succeeds where one that collects does. -/
theorem Succeeds.forM {items : List α} {step : α → Phase Unit}
    (succeeds : (items.mapM step).Succeeds before) : (items.forM step).Succeeds before := by
  have discards : items.forM step = items.mapM step >>= fun _ => pure () := by
    clear succeeds
    induction items with
    | nil => rfl
    | cons item rest ih =>
      change (step item >>= fun _ => rest.forM step) = _
      simp only [ih, List.mapM_cons, bind_assoc, pure_bind]
  rw [discards]
  exact succeeds.bind fun _ _ _ => succeeds_pure ..

end Phase
end DomainLang
