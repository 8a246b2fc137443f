import DomainLang.Proofs.Declaration.Members

/-!
# Expansions

An expansion merges a fragment of its own unit into a declaration and keeps the fragment as
the last unit. What the merge does to the program and the registry is what the expansion
does; everything else is as before.
-/

namespace DomainLang

open Resolved

namespace Workspace

/-- The fragment that expands a declaration. -/
def fragment (workspace : Workspace) (parent : CompilationUnit) (inference : Inference)
    (anchor : ContextKey) (span : Span) (body : UnitBody) : CompilationUnit :=
  .ofExpansion workspace.nextUnit parent inference anchor span body

/-- The workspace in which a fragment is merged. -/
def inside (workspace : Workspace) (fragment : CompilationUnit) : Workspace :=
  { workspace with
    walk := ⟨[.unit fragment.id]⟩
    expansionDepth := workspace.expansionDepth + 1 }

/-- The open scopes and the depth of expansion are as before. -/
def SameWalk (before after : Workspace) : Prop :=
  after.walk = before.walk ∧ after.expansionDepth = before.expansionDepth

theorem Grows.sameWalk {keys : List ContextKey} {before after : Workspace}
    (grows : before.Grows keys after) : before.SameWalk after :=
  ⟨grows.walk_eq, grows.expansionDepth_eq⟩

/-- Whether some unit has an id. -/
def HasUnit (workspace : Workspace) (id : UnitId) : Prop :=
  ∃ unit ∈ workspace.units, unit.id = id

theorem exists_unit {workspace : Workspace} {id : UnitId} (has : workspace.HasUnit id) :
    ∃ unit, workspace.unit? id = some unit := by
  obtain ⟨unit, member, rfl⟩ := has
  rw [← Option.isSome_iff_exists, unit?, List.find?_isSome]
  exact ⟨unit, member, by simp⟩

theorem unit?_eq_some {workspace : Workspace} {id : UnitId} {unit : CompilationUnit}
    (found : workspace.unit? id = some unit) : unit ∈ workspace.units ∧ unit.id = id :=
  ⟨List.mem_of_find?_eq_some found, by simpa using List.find?_some found⟩

/-- The id of a fragment is new. -/
theorem not_hasUnit_nextUnit (workspace : Workspace) : ¬ workspace.HasUnit workspace.nextUnit := by
  rintro ⟨unit, member, same⟩
  have bounded : unit.id.value + 1 ≤ (workspace.units.map (·.id.value + 1)).foldl max 0 :=
    le_foldl_max (.inr (List.mem_map_of_mem member))
  rw [same] at bounded
  exact Nat.not_succ_le_self _ bounded

/-- Units stay distinct when a fragment is added. -/
theorem nodup_ids_concat {workspace : Workspace} {fragment : CompilationUnit}
    (distinct : (workspace.units.map (·.id)).Nodup) (named : fragment.id = workspace.nextUnit) :
    ((workspace.units ++ [fragment]).map (·.id)).Nodup := by
  rw [List.map_append, List.nodup_append]
  refine ⟨distinct, List.nodup_singleton _, ?_⟩
  rintro id member other isFragment rfl
  obtain ⟨unit, among, rfl⟩ := List.mem_map.mp member
  rw [List.map_singleton, List.mem_singleton, named] at isFragment
  exact workspace.not_hasUnit_nextUnit ⟨unit, among, isFragment⟩

/-- The units that expansions refer to are there. -/
structure Expandable (workspace : Workspace) : Prop where
  shallow : workspace.expansionDepth < workspace.options.maxExpansionDepth
  contexts : ∀ key ∈ workspace.registry.keys, workspace.HasUnit key.unit
  classifiers : ∀ classifier, workspace.program.HoldsClassifier classifier →
    workspace.HasUnit (workspace.program.classifier classifier).header.context.unit
  services : ∀ service, workspace.program.services.Holds service →
    workspace.HasUnit (workspace.program.services.get service).context.unit

/-- Contexts of distinct nodes of a unit with a new id are fresh. -/
theorem Expandable.fresh {workspace : Workspace} (expandable : workspace.Expandable)
    {ids : List NodeId} (distinct : ids.Nodup) :
    workspace.registry.Fresh (ids.map (ContextKey.mk workspace.nextUnit)) where
  distinct := distinct.map fun _ _ same => (ContextKey.mk.inj same).2
  new key member registered := by
    obtain ⟨_, _, rfl⟩ := List.mem_map.mp member
    exact workspace.not_hasUnit_nextUnit (expandable.contexts _ registered)

end Workspace

namespace Phase

variable {inference : Inference} {anchor : ContextKey} {span : Span} {body : UnitBody}
  {before after : Workspace}

/-- An expansion keeps what the merge did and adds the fragment to the units. -/
theorem returns_expandDeclaration
    (steady : ∀ parent inner,
      (mergeFragment (before.fragment parent inference anchor span body) inference).Returns
        (before.inside (before.fragment parent inference anchor span body)) () inner →
      (before.inside (before.fragment parent inference anchor span body)).SameWalk inner)
    (returns : (expandDeclaration inference anchor span body).Returns before () after) :
    ∃ parent inner, before.unit? anchor.unit = some parent ∧
      (mergeFragment (before.fragment parent inference anchor span body) inference).Returns
        (before.inside (before.fragment parent inference anchor span body)) () inner ∧
      after = { inner with
        walk := before.walk
        expansionDepth := before.expansionDepth
        units := inner.units ++ [before.fragment parent inference anchor span body] } := by
  simp only [expandDeclaration, returns_get_bind] at returns
  cases found : before.unit? anchor.unit with
  | none => simp [found] at returns
  | some parent =>
    simp only [found, returns_bind, returns_expand, returns_pure] at returns
    obtain ⟨_, _, ⟨_, _, closed, framed, rfl⟩, _, rfl⟩ := returns
    obtain ⟨inner, merged, rfl⟩ := framed.inFrame fun inner merged => (steady _ inner merged).1
    have depth : inner.expansionDepth = before.expansionDepth + 1 := (steady _ inner merged).2
    exact ⟨parent, inner, rfl, merged, by simp [depth, Workspace.fragment]⟩

/-- An expansion succeeds when its parent is there, the depth allows it and the merge does. -/
theorem succeeds_expandDeclaration {parent : CompilationUnit}
    (found : before.unit? anchor.unit = some parent)
    (shallow : before.expansionDepth < before.options.maxExpansionDepth)
    (succeeds : (mergeFragment (before.fragment parent inference anchor span body)
      inference).Succeeds (before.inside (before.fragment parent inference anchor span body)))
    (steady : ∀ inner,
      (mergeFragment (before.fragment parent inference anchor span body) inference).Returns
        (before.inside (before.fragment parent inference anchor span body)) () inner →
      (before.inside (before.fragment parent inference anchor span body)).SameWalk inner) :
    (expandDeclaration inference anchor span body).Succeeds before := by
  simp only [expandDeclaration, succeeds_get_bind, found]
  refine .bind ?_ fun _ _ _ => succeeds_pure ..
  have framed : (inFrame (.unit (before.fragment parent inference anchor span body).id)
      (mergeFragment (before.fragment parent inference anchor span body) inference)).Succeeds
        { before with walk := {}, expansionDepth := before.expansionDepth + 1 } := by
    apply succeeds_inFrame
    · simp
    · exact succeeds
    · intro _ inner merged
      exact (steady inner merged).1
  obtain ⟨_, inner, merged⟩ := framed
  exact ⟨_, _, returns_expand.mpr ⟨shallow, rfl, inner, merged, rfl⟩⟩

end Phase
end DomainLang
