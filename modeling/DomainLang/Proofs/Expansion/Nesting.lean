import DomainLang.Proofs.Expansion

/-!
# Nested expansions

Scopes and expansions may stand inside each other to any depth, and every one of them may end in
a fault. Whatever happens inside, a call leaves the open scopes and the depth of expansion as it
found them, and the units that were added are those of the expansions that succeeded, inner ones
first (`Nest.resuming`). How deep expansions go is bounded by the option for it and by nothing else.

The id of a fragment is drawn before the fragments inside it are merged and is in use only
afterwards. So ids stay distinct as long as expansions follow each other, and they clash as soon
as one stands inside another (`Plan.exists_added`).
-/

namespace DomainLang

namespace Workspace

/-- The walk, the depth of expansion and the options are as before, and units were added. -/
structure Resumes (before after : Workspace) (added : List CompilationUnit) : Prop where
  walk : after.walk = before.walk
  depth : after.expansionDepth = before.expansionDepth
  options : after.options = before.options
  units : after.units = before.units ++ added

namespace Resumes

variable {before middle after : Workspace} {added more : List CompilationUnit}

theorem refl (workspace : Workspace) : workspace.Resumes workspace [] :=
  ⟨rfl, rfl, rfl, (List.append_nil _).symm⟩

theorem trans (first : before.Resumes middle added) (second : middle.Resumes after more) :
    before.Resumes after (added ++ more) where
  walk := second.walk.trans first.walk
  depth := second.depth.trans first.depth
  options := second.options.trans first.options
  units := by rw [second.units, first.units, List.append_assoc]

end Resumes
end Workspace

namespace Phase

variable {phase : Phase Unit} {completed : Workspace → List CompilationUnit}

/-- What a step completes inside a scope: nothing, if the scope cannot be opened. -/
def completedInFrame (frame : Frame) (completed : Workspace → List CompilationUnit)
    (workspace : Workspace) : List CompilationUnit :=
  match workspace.walk.enter frame with
  | (.error _, _) => []
  | (.ok (), walk) => completed { workspace with walk }

/-- What an expansion completes: what its merge completes, if it comes to that, and then its own
fragment, if it succeeds. -/
def completedByExpansion (unit : CompilationUnit) (merge : Phase Unit)
    (completed : Workspace → List CompilationUnit) (workspace : Workspace) :
    List CompilationUnit :=
  (if workspace.expansionDepth < workspace.options.maxExpansionDepth
    then completed (workspace.inside unit) else []) ++
    if ((expand unit merge).perform workspace).1.isOk then [unit] else []

/-- From any workspace and with any outcome, the step gives back the walk and the depth and has
added the units that it completes. -/
def Resuming (phase : Phase Unit) (completed : Workspace → List CompilationUnit) : Prop :=
  ∀ workspace : Workspace, workspace.Resumes (phase.perform workspace).2 (completed workspace)

/-- A scope is closed again. -/
theorem Resuming.inFrame (resuming : phase.Resuming completed) (frame : Frame) :
    (inFrame frame phase).Resuming (completedInFrame frame completed) := by
  intro workspace
  rcases entered : workspace.walk.enter frame with ⟨fault | ⟨⟩, opened⟩
  · rw [perform_inFrame_of_error entered, completedInFrame, entered]
    exact .refl workspace
  · have resumes := resuming { workspace with walk := opened }
    rcases performed : phase.perform { workspace with walk := opened } with ⟨result, inner⟩
    rw [performed] at resumes
    rw [perform_inFrame_of_steady entered performed resumes.walk, completedInFrame, entered]
    exact ⟨rfl, resumes.depth, resumes.options, resumes.units⟩

/-- An expansion that is not too deep has the outcome of its merge. -/
theorem Resuming.perform_expand (resuming : phase.Resuming completed) {unit : CompilationUnit}
    {workspace inner : Workspace} {result : Except Fault Unit}
    (shallow : workspace.expansionDepth < workspace.options.maxExpansionDepth)
    (merged : phase.perform (workspace.inside unit) = (result, inner)) :
    (expand unit phase).perform workspace = (result.map fun _ => unit.id, { inner with
      walk := workspace.walk
      expansionDepth := workspace.expansionDepth
      units := inner.units ++ if result.isOk then [unit] else [] }) := by
  have resumes : (workspace.inside unit).Resumes inner (completed (workspace.inside unit)) := by
    simpa only [merged] using resuming (workspace.inside unit)
  have depth : inner.expansionDepth - 1 = workspace.expansionDepth := by
    rw [resumes.depth]
    rfl
  have framed : (Phase.inFrame (.unit unit.id) phase).perform
      { workspace with walk := {}, expansionDepth := workspace.expansionDepth + 1 } =
        (result, { inner with walk := {} }) :=
    perform_inFrame_of_steady rfl merged resumes.walk
  cases result with
  | error fault =>
    rw [perform_expand_of_error shallow framed, depth]
    simp [Except.isOk, Except.toBool, Except.map]
  | ok _ =>
    rw [perform_expand_of_ok shallow framed, depth]
    rfl

/-- An expansion gives back the walk and the depth. -/
theorem Resuming.expand (resuming : phase.Resuming completed) (unit : CompilationUnit) :
    ∀ workspace : Workspace, workspace.Resumes ((expand unit phase).perform workspace).2
      (completedByExpansion unit phase completed workspace) := by
  intro workspace
  rcases Nat.lt_or_ge workspace.expansionDepth workspace.options.maxExpansionDepth with
    shallow | deep
  · have resumes := resuming (workspace.inside unit)
    rcases merged : phase.perform (workspace.inside unit) with ⟨result, inner⟩
    rw [merged] at resumes
    rw [completedByExpansion, if_pos shallow, resuming.perform_expand shallow merged]
    refine ⟨rfl, rfl, resumes.options, ?_⟩
    rw [← List.append_assoc]
    cases result <;> exact congrArg (· ++ _) resumes.units
  · rw [completedByExpansion, perform_expand_of_deep deep, if_neg (Nat.not_lt.mpr deep)]
    exact .refl workspace

end Phase

/-- A step made of scopes and expansions. It may look at the workspace, change what is analysed,
end in a fault anywhere, and go on in any way after a call has succeeded or failed. -/
inductive Nest where
  | done
  | fail (fault : Fault)
  | look (next : Workspace → Nest)
  | update (program : Program) (registry : Registry) (report : Report) (next : Nest)
  | inFrame (frame : Frame) (body : Nest) (next : Except Fault Unit → Nest)
  | expand (unit : CompilationUnit) (merge : Nest) (next : Except Fault UnitId → Nest)

namespace Nest

/-- Go through the step. -/
def perform : Nest → Workspace → Except Fault Unit × Workspace
  | done, workspace => (.ok (), workspace)
  | fail fault, workspace => (.error fault, workspace)
  | look next, workspace => (next workspace).perform workspace
  | update program registry report next, workspace =>
    next.perform { workspace with program, registry, report }
  | inFrame frame body next, workspace =>
    let (result, after) := (Phase.inFrame frame (ExceptT.mk body.perform)).perform workspace
    (next result).perform after
  | expand unit merge next, workspace =>
    let (result, after) := (Phase.expand unit (ExceptT.mk merge.perform)).perform workspace
    (next result).perform after

/-- The nest as a step of a compilation. -/
def phase (nest : Nest) : Phase Unit :=
  ExceptT.mk nest.perform

/-- The fragments of the expansions that succeed, in the order in which they do. -/
def completed : Nest → Workspace → List CompilationUnit
  | done, _ | fail _, _ => []
  | look next, workspace => (next workspace).completed workspace
  | update program registry report next, workspace =>
    next.completed { workspace with program, registry, report }
  | inFrame frame body next, workspace =>
    let (result, after) := (Phase.inFrame frame body.phase).perform workspace
    Phase.completedInFrame frame body.completed workspace ++ (next result).completed after
  | expand unit merge next, workspace =>
    let (result, after) := (Phase.expand unit merge.phase).perform workspace
    Phase.completedByExpansion unit merge.phase merge.completed workspace ++
      (next result).completed after

/-- Whatever happens in a nest, the walk and the depth are given back. -/
theorem resuming (nest : Nest) : nest.phase.Resuming nest.completed := by
  induction nest with
  | done => exact Workspace.Resumes.refl
  | fail fault => exact Workspace.Resumes.refl
  | look next ih => exact fun workspace => ih workspace workspace
  | update program registry report next ih =>
    intro workspace
    obtain ⟨walk, depth, options, units⟩ := ih { workspace with program, registry, report }
    exact ⟨walk, depth, options, units⟩
  | inFrame frame body next inside after =>
    exact fun workspace => (inside.inFrame frame workspace).trans (after _ _)
  | expand unit merge next inside after =>
    exact fun workspace => (inside.expand unit workspace).trans (after _ _)

/-- Go on unless the call before has failed. -/
def proceed {α : Type} (next : Nest) : Except Fault α → Nest
  | .error fault => fail fault
  | .ok _ => next

section Proceed

variable {unit : CompilationUnit} {merge next : Nest} {workspace : Workspace}

theorem perform_expand {result : Except Fault UnitId} {after : Workspace}
    (called : (Phase.expand unit merge.phase).perform workspace = (result, after)) :
    (expand unit merge (proceed next)).perform workspace =
      (proceed next result).perform after :=
  congrArg (fun outcome : Except Fault UnitId × Workspace =>
    (proceed next outcome.1).perform outcome.2) called

variable (shallow : workspace.expansionDepth < workspace.options.maxExpansionDepth)
include shallow

/-- After a merge that only added units, there is one more. -/
theorem perform_expand_of_ok {added : List CompilationUnit}
    (merged : merge.perform (workspace.inside unit) =
      (.ok (), { workspace.inside unit with units := workspace.units ++ added })) :
    (expand unit merge (proceed next)).perform workspace =
      next.perform { workspace with units := workspace.units ++ (added ++ [unit]) } := by
  rw [← List.append_assoc, perform_expand (merge.resuming.perform_expand shallow merged)]
  rfl

/-- After a merge that failed and left no trace, nothing has changed. -/
theorem perform_expand_of_error {fault : Fault}
    (merged : merge.perform (workspace.inside unit) = (.error fault, workspace.inside unit)) :
    (expand unit merge (proceed next)).perform workspace = (.error fault, workspace) := by
  rw [perform_expand (merge.resuming.perform_expand shallow merged),
    if_neg (by simp [Except.isOk, Except.toBool]), List.append_nil]
  rfl

end Proceed

/-- Expansions that stand inside each other and do nothing else. -/
def chain : List CompilationUnit → Nest
  | [] => done
  | unit :: inner => expand unit (chain inner) (proceed done)

/-- A chain succeeds when the depth allows all of it; otherwise it leaves no trace. -/
theorem perform_chain (units : List CompilationUnit) (workspace : Workspace)
    (within : workspace.expansionDepth ≤ workspace.options.maxExpansionDepth) :
    (chain units).perform workspace =
      if workspace.expansionDepth + units.length ≤ workspace.options.maxExpansionDepth then
        (.ok (), { workspace with units := workspace.units ++ units.reverse })
      else (.error (.expansionTooDeep workspace.options.maxExpansionDepth), workspace) := by
  induction units generalizing workspace with
  | nil => simp [chain, perform, within]
  | cons unit inner ih =>
    rw [List.length_cons, List.reverse_cons, chain]
    rcases Nat.lt_or_ge workspace.expansionDepth workspace.options.maxExpansionDepth with
      shallow | deep
    · have merged := ih (workspace.inside unit) shallow
      by_cases fits :
        workspace.expansionDepth + 1 + inner.length ≤ workspace.options.maxExpansionDepth
      · rw [perform_expand_of_ok shallow (merged.trans (if_pos fits)), if_pos (by omega)]
        rfl
      · rw [perform_expand_of_error shallow (merged.trans (if_neg fits)), if_neg (by omega)]
        rfl
    · rw [perform_expand (Phase.perform_expand_of_deep deep), if_neg (by omega)]
      rfl

end Nest

/-- Expansions in any shape, each given by the fragment that it is to merge except for the id,
which is drawn just before. -/
inductive Plan where
  | none
  | expansion (parent : Workspace → CompilationUnit) (inference : Inference)
      (anchor : ContextKey) (span : Span) (body : UnitBody) (inner rest : Plan)

namespace Plan

/-- Carry out the expansions, the inner ones while the outer one merges. -/
def nest : Plan → Nest
  | none => .done
  | expansion parent inference anchor span body inner rest => .look fun workspace =>
    .expand (workspace.fragment (parent workspace) inference anchor span body) inner.nest
      (.proceed rest.nest)

/-- How deep the expansions stand inside each other. -/
def height : Plan → Nat
  | none => 0
  | expansion _ _ _ _ _ inner rest => max (inner.height + 1) rest.height

/-- No expansion stands inside another. -/
def Flat : Plan → Prop
  | none => True
  | expansion _ _ _ _ _ inner rest => inner = none ∧ rest.Flat

/-- What carrying out a plan adds: among it a fragment with the id that was next, so that ids
stay distinct only if no such fragment stands inside another one. -/
theorem exists_added (plan : Plan) (workspace : Workspace)
    (fits : workspace.expansionDepth + plan.height ≤ workspace.options.maxExpansionDepth) :
    ∃ added, plan.nest.perform workspace =
        (.ok (), { workspace with units := workspace.units ++ added }) ∧
      (plan ≠ none → ∃ unit ∈ added, unit.id = workspace.nextUnit) ∧
      ((workspace.units.map (·.id)).Nodup →
        (((workspace.units ++ added).map (·.id)).Nodup ↔ plan.Flat)) := by
  induction plan generalizing workspace with
  | none => exact ⟨[], by simp [nest, Nest.perform], by simp, by simp [Flat]⟩
  | expansion parent inference anchor span body inner rest innerIh restIh =>
    let fragment := workspace.fragment (parent workspace) inference anchor span body
    have bounds : workspace.expansionDepth + 1 + inner.height ≤
        workspace.options.maxExpansionDepth ∧
        workspace.expansionDepth + rest.height ≤ workspace.options.maxExpansionDepth := by
      simp only [height] at fits
      omega
    obtain ⟨inside, merged, first, -⟩ := innerIh (workspace.inside fragment) bounds.1
    obtain ⟨later, went, -, distinctLater⟩ := restIh
      { workspace with units := workspace.units ++ (inside ++ [fragment]) } bounds.2
    refine ⟨inside ++ [fragment] ++ later, ?_, ?_, ?_⟩
    · rw [← List.append_assoc]
      exact (Nest.perform_expand_of_ok (by omega) merged).trans went
    · exact fun _ => ⟨fragment, by simp, rfl⟩
    · intro distinct
      rw [← List.append_assoc]
      cases inner with
      | none =>
        have same : workspace.units = workspace.units ++ inside :=
          congrArg (fun outcome => outcome.2.units) merged
        obtain rfl := List.self_eq_append_right.mp same
        rw [distinctLater (Workspace.nodup_ids_concat distinct rfl), Flat, and_iff_right rfl]
      | expansion =>
        obtain ⟨unit, member, sameId⟩ := first (by simp)
        refine iff_of_false (fun nodup => ?_) (by simp [Flat])
        rw [List.append_assoc, List.map_append, List.map_append, List.map_append] at nodup
        have apart := (List.nodup_append.mp nodup.of_append_right.of_append_left).2.2
        exact apart _ (List.mem_map_of_mem member) _ (List.mem_singleton_self _) sameId

end Plan

/-- Whatever nests inside an expansion and wherever it fails, the walk and the depth are given
back, and the units added are those of the expansions that succeeded, inner ones first. A chain of
expansions succeeds exactly when the depth allows it, and otherwise adds no unit. -/
theorem expand_resumes :
    (∀ (unit : CompilationUnit) (merge : Nest) (workspace : Workspace),
      workspace.Resumes ((Phase.expand unit merge.phase).perform workspace).2
        (Phase.completedByExpansion unit merge.phase merge.completed workspace)) ∧
    ∀ (units : List CompilationUnit) (workspace : Workspace),
      (Nest.chain units).perform { workspace with expansionDepth := 0 } =
        if units.length ≤ workspace.options.maxExpansionDepth then
          (.ok (), { workspace with
            expansionDepth := 0
            units := workspace.units ++ units.reverse })
        else (.error (.expansionTooDeep workspace.options.maxExpansionDepth),
          { workspace with expansionDepth := 0 }) := by
  refine ⟨fun unit merge => merge.resuming.expand unit, fun units workspace => ?_⟩
  rw [Nest.perform_chain units _ (Nat.zero_le _), Nat.zero_add]

/-- Expansions whose ids are drawn just before keep the ids of units distinct exactly when none of
them stands inside another. -/
theorem expansion_ids_distinct_iff (plan : Plan) (workspace : Workspace)
    (fits : workspace.expansionDepth + plan.height ≤ workspace.options.maxExpansionDepth)
    (distinct : (workspace.units.map (·.id)).Nodup) :
    ∃ after, plan.nest.perform workspace = (.ok (), after) ∧
      ((after.units.map (·.id)).Nodup ↔ plan.Flat) := by
  obtain ⟨added, performed, -, flat⟩ := plan.exists_added workspace fits
  exact ⟨_, performed, flat distinct⟩

namespace Sample

/-- A file without declarations. -/
def notes : CompilationUnit :=
  .ofTree ⟨0⟩ "notes" ⟨⟨.bare, "com.example"⟩, []⟩

/-- An expansion that adds no member, with what stands inside it and after it. -/
def expansion (inner rest : Plan) : Plan :=
  .expansion (fun _ => notes) .temporalProperties ⟨⟨0⟩, ⟨1⟩⟩ (.startOf 0)
    (.members (.klass ⟨0⟩) []) inner rest

end Sample

/-- Two expansions that follow each other have ids of their own. -/
theorem expansion_ids_distinct_iff_notes :
    ∃ after, (Sample.expansion .none (Sample.expansion .none .none)).nest.perform
        { options := {}, units := [Sample.notes] } = (.ok (), after) ∧
      (after.units.map (·.id)).Nodup := by
  obtain ⟨after, performed, iff⟩ := expansion_ids_distinct_iff
    (Sample.expansion .none (Sample.expansion .none .none))
    { options := {}, units := [Sample.notes] } (by decide) (by decide)
  exact ⟨after, performed, iff.mpr ⟨rfl, rfl, trivial⟩⟩

/-- An expansion and the one inside it have the same id, well within the depth allowed. -/
theorem expansion_ids_shared :
    (Sample.expansion (Sample.expansion .none .none) .none).height ≤
        ({} : Options).maxExpansionDepth ∧
      ∃ after, (Sample.expansion (Sample.expansion .none .none) .none).nest.perform
          { options := {}, units := [Sample.notes] } = (.ok (), after) ∧
        after.units.map (·.id) = [⟨0⟩, ⟨1⟩, ⟨1⟩] ∧ ¬ (after.units.map (·.id)).Nodup :=
  ⟨by decide, _, rfl, rfl, by decide⟩

end DomainLang
