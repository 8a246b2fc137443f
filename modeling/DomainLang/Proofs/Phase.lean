import DomainLang.Declaration.Members
import Mathlib.Data.List.Basic

/-!
# Successful steps

`Phase.Returns` says that a step succeeds and in which workspace it ends. There is
one equivalence for each way of building steps, so that a run of a composed step is
taken apart into runs of its parts, and two rules for loops: `Returns.forM_induction`
for what every successful loop maintains, and `succeeds_forM` for loops that cannot
fail.
-/

namespace DomainLang.Phase

variable {α β : Type} {before after : Workspace} {frame : Frame} {body : Phase α}

/-- The step succeeds with a value and ends in the given workspace. -/
def Returns (phase : Phase α) (before : Workspace) (value : α) (after : Workspace) : Prop :=
  phase.perform before = (.ok value, after)

/-- What is seen of the outcome of a step that succeeds. -/
theorem exists_returns_of_map_eq {γ : Type} {phase : Phase Unit} {view : Workspace → γ} {seen : γ}
    (outcome : (phase.perform before).map Except.toOption view = (some (), seen)) :
    ∃ after, phase.perform before = (.ok (), after) ∧ view after = seen := by
  cases performed : phase.perform before with
  | mk result after =>
    rw [performed, Prod.map_apply, Prod.mk.injEq] at outcome
    cases result with
    | error fault => cases outcome.1
    | ok value => exact ⟨after, rfl, outcome.2⟩

@[simp]
theorem returns_pure {value result : α} :
    (pure value : Phase α).Returns before result after ↔ result = value ∧ after = before := by
  constructor
  · intro returns
    cases returns
    exact ⟨rfl, rfl⟩
  · rintro ⟨rfl, rfl⟩
    rfl

@[simp]
theorem returns_bind {first : Phase α} {next : α → Phase β} {result : β} :
    (first >>= next).Returns before result after ↔
      ∃ value between, first.Returns before value between ∧
        (next value).Returns between result after := by
  have unfolded : (first >>= next).perform before =
      match first.perform before with
      | (.ok value, between) => (next value).perform between
      | (.error fault, between) => (.error fault, between) := by
    change ExceptT.bindCont next (first.perform before).1 (first.perform before).2 = _
    rcases first.perform before with ⟨_ | value, between⟩ <;> rfl
  unfold Returns
  rw [unfolded]
  constructor
  · intro performed
    split at performed
    · next value between equal => exact ⟨value, between, equal, performed⟩
    · cases performed
  · rintro ⟨value, between, performed, rest⟩
    rw [performed]
    exact rest

@[simp]
theorem returns_get {result : Workspace} :
    (get : Phase Workspace).Returns before result after ↔ result = before ∧ after = before := by
  constructor
  · intro returns
    cases returns
    exact ⟨rfl, rfl⟩
  · rintro ⟨rfl, rfl⟩
    rfl

@[simp]
theorem returns_modify {change : Workspace → Workspace} {result : Unit} :
    (modify change : Phase Unit).Returns before result after ↔ after = change before := by
  constructor
  · intro returns
    cases returns
    rfl
  · rintro rfl
    rfl

@[simp]
theorem returns_modifyProgram {change : Program → Program} {result : Unit} :
    (modifyProgram change).Returns before result after ↔ after = before.modifyProgram change :=
  returns_modify

/-- Reading the workspace changes nothing. -/
theorem returns_get_bind {next : Workspace → Phase β} {result : β} :
    (get >>= next).Returns before result after ↔ (next before).Returns before result after := by
  simp

/-- A change of the program comes before what follows. -/
theorem returns_modifyProgram_bind {change : Program → Program} {next : Unit → Phase β}
    {result : β} :
    (modifyProgram change >>= next).Returns before result after ↔
      (next ()).Returns (before.modifyProgram change) result after := by
  simp only [returns_bind, returns_modifyProgram, exists_eq_left]
  exact ⟨fun ⟨_, returns⟩ => returns, fun returns => ⟨(), returns⟩⟩

@[simp]
theorem returns_throw {fault : Fault} {result : α} :
    (throw fault : Phase α).Returns before result after ↔ False := by
  constructor
  · intro returns
    cases returns
  · exact False.elim

/-- A change of the registry has the outcome of the change and keeps the registry that it
leaves behind. -/
theorem perform_updateRegistry (change : Registry → Except Fault Unit × Registry)
    (before : Workspace) :
    (updateRegistry change).perform before =
      ((change before.registry).1, { before with registry := (change before.registry).2 }) :=
  rfl

@[simp]
theorem returns_updateRegistry {change : Registry → Except Fault Unit × Registry} {result : Unit} :
    (updateRegistry change).Returns before result after ↔
      ∃ registry, change before.registry = (.ok (), registry) ∧
        after = { before with registry } := by
  rw [Returns, perform_updateRegistry]
  rcases change before.registry with ⟨fault | ⟨⟩, registry⟩
  · simp
  · simp [eq_comm]

/-- A context is registered exactly when it is new. -/
theorem returns_registerContext {context : ContextKey} {record : RecordIndex} {result : Unit} :
    (registerContext context record).Returns before result after ↔
      context ∉ before.registry.contexts.map Prod.fst ∧
        after = { before with
          registry := { before.registry with
            contexts := (context, record) :: before.registry.contexts } } := by
  simp only [registerContext, returns_updateRegistry, Registry.registerContext]
  split
  · next known =>
    simp only [Prod.mk.injEq, reduceCtorEq, false_and, exists_false, false_iff, not_and]
    intro new
    exact absurd (by simpa using known) new
  · next new =>
    have fresh : context ∉ before.registry.contexts.map Prod.fst := by simpa using new
    simp [fresh]

/-- The step succeeds. -/
def Succeeds (phase : Phase α) (before : Workspace) : Prop :=
  ∃ value after, phase.Returns before value after

@[simp]
theorem succeeds_pure (value : α) (before : Workspace) : (pure value : Phase α).Succeeds before :=
  ⟨value, before, returns_pure.mpr ⟨rfl, rfl⟩⟩

/-- A step followed by another succeeds when both do. -/
theorem Succeeds.bind {first : Phase α} {next : α → Phase β} (succeeds : first.Succeeds before)
    (continues : ∀ value between, first.Returns before value between →
      (next value).Succeeds between) : (first >>= next).Succeeds before := by
  obtain ⟨value, between, started⟩ := succeeds
  obtain ⟨result, after, rest⟩ := continues value between started
  exact ⟨result, after, returns_bind.mpr ⟨value, between, started, rest⟩⟩

theorem succeeds_get_bind {next : Workspace → Phase β} :
    (get >>= next).Succeeds before ↔ (next before).Succeeds before := by
  simp only [Succeeds, returns_get_bind]

theorem succeeds_modifyProgram_bind {change : Program → Program} {next : Unit → Phase β} :
    (modifyProgram change >>= next).Succeeds before ↔
      (next ()).Succeeds (before.modifyProgram change) := by
  simp only [Succeeds, returns_modifyProgram_bind]

/-- A scope that cannot be opened leaves the walk as it was. -/
theorem enter_eq_error {walk left : Walk} {fault : Fault}
    (refused : walk.enter frame = (.error fault, left)) : left = walk := by
  rw [Walk.enter] at refused
  split at refused
  · exact (Prod.mk.inj refused).2.symm
  · cases refused

/-- A scope that is opened becomes the innermost one. -/
theorem enter_eq_ok {walk opened : Walk} (entered : walk.enter frame = (.ok (), opened)) :
    opened = ⟨frame :: walk.frames⟩ := by
  rw [Walk.enter] at entered
  split at entered
  · cases entered
  · exact (Prod.mk.inj entered).2.symm

/-- Closing the scope that was opened last restores the walk. -/
theorem exit_opened (walk : Walk) (frame : Frame) :
    (⟨frame :: walk.frames⟩ : Walk).exit frame = (.ok (), walk) := by
  simp [Walk.exit]

/-- A scope that cannot be opened stops the step. -/
theorem perform_inFrame_of_error {fault : Fault} {left : Walk}
    (refused : before.walk.enter frame = (.error fault, left)) :
    (inFrame frame body).perform before = (.error fault, before) := by
  obtain rfl := enter_eq_error refused
  simp only [inFrame, perform, ExceptT.run_mk, refused]

/-- A step inside a scope that can be opened runs and then closes it. -/
theorem perform_inFrame_of_ok {opened : Walk}
    (entered : before.walk.enter frame = (.ok (), opened)) :
    (inFrame frame body).perform before =
      closing frame (body.perform { before with walk := opened }).1
        (body.perform { before with walk := opened }).2 := by
  simp only [inFrame, perform, ExceptT.run_mk, entered]

/-- A step inside a scope opens the scope, runs and closes it. -/
theorem returns_inFrame {result : α} :
    (inFrame frame body).Returns before result after ↔
      ∃ opened inner closed, before.walk.enter frame = (.ok (), opened) ∧
        body.Returns { before with walk := opened } result inner ∧
        inner.walk.exit frame = (.ok (), closed) ∧ after = { inner with walk := closed } := by
  unfold Returns
  rcases entered : before.walk.enter frame with ⟨fault | ⟨⟩, opened⟩
  · simp [perform_inFrame_of_error entered]
  · rw [perform_inFrame_of_ok entered]
    rcases performed : body.perform { before with walk := opened } with ⟨outcome, inner⟩
    rcases exited : inner.walk.exit frame with ⟨fault | ⟨⟩, closed⟩
    · simp only [performed, closing, exited, Prod.mk.injEq, reduceCtorEq, false_and,
        true_and, exists_and_left, exists_eq_left', false_iff, not_exists, not_and]
      rintro other ⟨_, rfl⟩ closed left
      simp [exited] at left
    · simp only [performed, closing, exited, Prod.mk.injEq, true_and, exists_and_left,
        exists_eq_left']
      constructor
      · rintro ⟨rfl, rfl⟩
        exact ⟨inner, ⟨rfl, rfl⟩, closed, exited, rfl⟩
      · rintro ⟨other, ⟨rfl, rfl⟩, walk, left, rfl⟩
        rw [exited] at left
        exact ⟨rfl, by rw [(Prod.mk.inj left).2]⟩

/-- A step that leaves the walk alone has the same outcome inside a scope. -/
theorem perform_inFrame_of_steady {inner : Workspace} {opened : Walk} {result : Except Fault α}
    (entered : before.walk.enter frame = (.ok (), opened))
    (performed : body.perform { before with walk := opened } = (result, inner))
    (steady : inner.walk = opened) :
    (inFrame frame body).perform before = (result, { inner with walk := before.walk }) := by
  rw [perform_inFrame_of_ok entered, performed, closing, steady, enter_eq_ok entered, exit_opened]

/-- A step that leaves the walk alone runs with one more open scope. -/
theorem Returns.inFrame {result : α} (returns : (inFrame frame body).Returns before result after)
    (steady : ∀ inner, body.Returns { before with walk := ⟨frame :: before.walk.frames⟩ } result
      inner → inner.walk = ⟨frame :: before.walk.frames⟩) :
    ∃ inner, body.Returns { before with walk := ⟨frame :: before.walk.frames⟩ } result inner ∧
      after = { inner with walk := before.walk } := by
  obtain ⟨opened, inner, closed, entered, inside, exited, rfl⟩ := returns_inFrame.mp returns
  cases enter_eq_ok entered
  refine ⟨inner, inside, ?_⟩
  rw [steady inner inside, exit_opened] at exited
  rw [(Prod.mk.inj exited).2]

/-- A step inside a scope succeeds when no scope of its kind is open. -/
theorem succeeds_inFrame (closed : ∀ other ∈ before.walk.frames, other.kind ≠ frame.kind)
    (succeeds : body.Succeeds { before with walk := ⟨frame :: before.walk.frames⟩ })
    (steady : ∀ result inner, body.Returns { before with walk := ⟨frame :: before.walk.frames⟩ }
      result inner → inner.walk = ⟨frame :: before.walk.frames⟩) :
    (inFrame frame body).Succeeds before := by
  obtain ⟨result, inner, inside⟩ := succeeds
  refine ⟨result, { inner with walk := before.walk }, returns_inFrame.mpr
    ⟨⟨frame :: before.walk.frames⟩, inner, before.walk, ?_, inside, ?_, rfl⟩⟩
  · rw [Walk.enter, if_neg]
    simpa using closed
  · rw [steady result inner inside, exit_opened]

section Expand

variable {unit : CompilationUnit} {merge : Phase Unit} {before inner : Workspace}

/-- An expansion that would go too deep is refused. -/
theorem perform_expand_of_deep
    (deep : before.options.maxExpansionDepth ≤ before.expansionDepth) :
    (expand unit merge).perform before =
      (.error (.expansionTooDeep before.options.maxExpansionDepth), before) := by
  simp only [expand, perform, ExceptT.run_mk, deep, if_true]

section Shallow

variable (shallow : before.expansionDepth < before.options.maxExpansionDepth)
include shallow

/-- A merge that fails still gives back the walk. -/
theorem perform_expand_of_error {fault : Fault}
    (merged : (inFrame (.unit unit.id) merge).perform
      { before with walk := {}, expansionDepth := before.expansionDepth + 1 } =
        (.error fault, inner)) :
    (expand unit merge).perform before = (.error fault, { inner with
      walk := before.walk
      expansionDepth := inner.expansionDepth - 1 }) := by
  simp only [expand, perform, ExceptT.run_mk, Nat.not_le.mpr shallow, if_false] at merged ⊢
  rw [merged]

/-- The fragment of a merge that succeeds is kept as the last unit. -/
theorem perform_expand_of_ok
    (merged : (inFrame (.unit unit.id) merge).perform
      { before with walk := {}, expansionDepth := before.expansionDepth + 1 } = (.ok (), inner)) :
    (expand unit merge).perform before = (.ok unit.id, { inner with
      walk := before.walk
      expansionDepth := inner.expansionDepth - 1
      units := inner.units ++ [unit] }) := by
  simp only [expand, perform, ExceptT.run_mk, Nat.not_le.mpr shallow, if_false] at merged ⊢
  rw [merged]

end Shallow

/-- A fragment is merged one level deeper and on an empty walk. -/
theorem returns_expand {result : UnitId} :
    (expand unit merge).Returns before result after ↔
      before.expansionDepth < before.options.maxExpansionDepth ∧ result = unit.id ∧
        ∃ inner, (inFrame (.unit unit.id) merge).Returns
            { before with walk := {}, expansionDepth := before.expansionDepth + 1 } () inner ∧
          after = { inner with
            walk := before.walk
            expansionDepth := inner.expansionDepth - 1
            units := inner.units ++ [unit] } := by
  unfold Returns
  rcases Nat.lt_or_ge before.expansionDepth before.options.maxExpansionDepth with shallow | deep
  · rcases merged : (inFrame (.unit unit.id) merge).perform
      { before with walk := {}, expansionDepth := before.expansionDepth + 1 } with ⟨outcome, inner⟩
    cases outcome with
    | error fault => simp [perform_expand_of_error shallow merged]
    | ok _ => simp [perform_expand_of_ok shallow merged, shallow, eq_comm]
  · simp [perform_expand_of_deep deep, Nat.not_lt.mpr deep]

end Expand

/-- What holds before a loop and is kept by each successful step, given the items that were
visited, holds after the loop of all items. -/
theorem Returns.forM_induction {items : List α} {step : α → Phase Unit}
    (returns : (items.forM step).Returns before () after) (motive : List α → Workspace → Prop)
    (start : motive [] before)
    (next : ∀ visited item rest current following, items = visited ++ item :: rest →
      motive visited current → (step item).Returns current () following →
      motive (visited ++ [item]) following) : motive items after := by
  -- The items split into those visited, for which `motive` holds, and those still to come.
  suffices loop : ∀ rest visited current, items = visited ++ rest → motive visited current →
      (rest.forM step).Returns current () after → motive items after from
    loop items [] before rfl start returns
  intro rest
  induction rest with
  | nil =>
    intro visited current split holds finished
    simp only [List.forM, returns_pure, true_and] at finished
    subst finished
    simpa [split] using holds
  | cons item rest ih =>
    intro visited current split holds running
    simp only [List.forM, returns_bind] at running
    obtain ⟨_, following, stepped, remaining⟩ := running
    apply ih (visited ++ [item]) following (by simp [split]) _ remaining
    exact next visited item rest current following split holds stepped

/-- A loop succeeds when its steps do while an invariant holds that they keep. -/
theorem succeeds_forM {items : List α} {step : α → Phase Unit}
    (motive : List α → Workspace → Prop) (start : motive [] before)
    (succeeds : ∀ visited item rest current, items = visited ++ item :: rest →
      motive visited current → (step item).Succeeds current)
    (next : ∀ visited item rest current following, items = visited ++ item :: rest →
      motive visited current → (step item).Returns current () following →
      motive (visited ++ [item]) following) : (items.forM step).Succeeds before := by
  suffices loop : ∀ rest visited current, items = visited ++ rest → motive visited current →
      (rest.forM step).Succeeds current from loop items [] before rfl start
  intro rest
  induction rest with
  | nil =>
    intro visited current split holds
    exact succeeds_pure ..
  | cons item rest ih =>
    intro visited current split holds
    refine .bind (succeeds visited item rest current split holds) fun _ following returns => ?_
    apply ih (visited ++ [item]) following (by simp [split])
    exact next visited item rest current following split holds returns

/-- A loop whose steps change nothing changes nothing. -/
theorem returns_forM_of_idle {items : List α} {step : α → Phase Unit} {workspace : Workspace}
    (idle : ∀ item ∈ items, (step item).Returns workspace () workspace) :
    (items.forM step).Returns workspace () workspace := by
  induction items with
  | nil => exact returns_pure.mpr ⟨rfl, rfl⟩
  | cons item rest ih =>
    rw [List.forall_mem_cons] at idle
    exact returns_bind.mpr ⟨(), workspace, idle.1, ih idle.2⟩

/-- The rule for loops that collect a value for each item. -/
theorem Returns.mapM_induction {items : List α} {step : α → Phase β} {results : List β}
    (returns : (items.mapM step).Returns before results after)
    (motive : List α → List β → Workspace → Prop) (start : motive [] [] before)
    (next : ∀ visited values item rest value current following, items = visited ++ item :: rest →
      motive visited values current → (step item).Returns current value following →
      motive (visited ++ [item]) (values ++ [value]) following) : motive items results after := by
  suffices loop : ∀ rest visited values current remaining, items = visited ++ rest →
      motive visited values current → (rest.mapM step).Returns current remaining after →
      motive items (values ++ remaining) after from
    loop items [] [] before results rfl start returns
  intro rest
  induction rest with
  | nil =>
    intro visited values current remaining split holds finished
    simp only [List.mapM_nil, returns_pure] at finished
    obtain ⟨rfl, rfl⟩ := finished
    simpa [split] using holds
  | cons item rest ih =>
    intro visited values current remaining split holds running
    simp only [List.mapM_cons, returns_bind, returns_pure] at running
    obtain ⟨value, following, stepped, others, ending, remainder, rfl, rfl⟩ := running
    have continued := ih (visited ++ [item]) (values ++ [value]) following others
      (by simp [split]) (next visited values item rest value current following split holds stepped)
      remainder
    simpa using continued

end DomainLang.Phase
