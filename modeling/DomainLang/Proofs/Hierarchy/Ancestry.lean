import DomainLang.Proofs.Hierarchy.Cycles

/-!
# Ancestors come first

The order in which inferences visit classifiers lists every classifier once, and before it the
parents that do not inherit from it. In a program without cycles these are all parents, so that
everything that a classifier inherits from comes before the classifier.
-/

namespace DomainLang

open Relation (ReflTransGen TransGen)
open Resolved

namespace Program

variable {program : Program}

/-- A classifier that is not there has no parents. -/
theorem parents_of_not_mem (classifier : ClassifierIndex)
    (absent : classifier ∉ program.classifiers) : program.parents classifier = [] := by
  rw [mem_classifiers] at absent
  cases classifier with
  | interface index =>
    rw [parents, parentInterfaces_of_not_mem index (mt Arena.mem_indices.mp absent), List.map_nil]
  | klass index =>
    rw [parents, superclass?, Arena.get_of_not_holds absent]
    rfl

/-- The order of inheritance lists every classifier, none twice, and parents first. -/
theorem inheritanceOrder_parentsFirst (program : Program) :
    program.classifiers ⊆ program.inheritanceOrder ∧
      (∀ classifier ∈ program.inheritanceOrder,
        ∃ heir ∈ program.classifiers, program.Inherits heir classifier) ∧
      program.inheritanceOrder.Nodup ∧
      Graph.ParentsFirst program.parents program.inheritanceOrder :=
  Graph.postOrder_parentsFirst program.nodup_classifiers parents_of_not_mem
    (Nat.lt_succ_self _) program.classifiers

section Acyclic

/-- In a program without cycles a parent never inherits from its child. -/
theorem Acyclic.not_leads (acyclic : program.Acyclic) {classifier parent : ClassifierIndex}
    (isParent : parent ∈ program.parents classifier) :
    ¬ Graph.Leads program.parents parent classifier :=
  fun back => acyclic classifier (TransGen.head' isParent back)

/-- Whatever a classifier inherits from comes earlier. -/
theorem Acyclic.mem_earlier (acyclic : program.Acyclic) {order : List ClassifierIndex}
    (sorted : Graph.ParentsFirst program.parents order)
    {earlier later : List ClassifierIndex} {classifier ancestor : ClassifierIndex}
    (split : order = earlier ++ classifier :: later)
    (inherits : program.Inherits classifier ancestor) (different : ancestor ≠ classifier) :
    ancestor ∈ earlier := by
  have closed : ∀ node ∈ earlier, ∀ parent ∈ program.parents node, parent ∈ earlier := by
    intro node member parent isParent
    obtain ⟨front, back, rfl⟩ := List.append_of_mem member
    have before := sorted front node (back ++ classifier :: later) (by simpa using split) parent
      isParent
    exact List.mem_append_left _ (before.resolve_right (acyclic.not_leads isParent))
  rcases ReflTransGen.cases_head inherits with same | ⟨parent, isParent, onward⟩
  · exact absurd same.symm different
  · exact Graph.mem_of_reaches closed onward
      ((sorted earlier classifier later split parent isParent).resolve_right
        (acyclic.not_leads isParent))

end Acyclic

/-- The order of inheritance has every classifier once, whatever bounds the search for it, and
after the parents that do not inherit from it. A parent that is not there is listed too. -/
structure OrdersInheritance (program : Program) : Prop where
  ends : ∀ bound, program.classifiers.length < bound →
    Graph.postOrder program.parents bound program.classifiers = program.inheritanceOrder
  distinct : program.inheritanceOrder.Nodup
  mem_iff : ∀ classifier, classifier ∈ program.inheritanceOrder ↔
    program.HoldsClassifier classifier ∨ ∃ child, classifier ∈ program.parents child
  perm : (∀ child, program.parents child ⊆ program.classifiers) →
    program.inheritanceOrder.Perm program.classifiers
  parentsFirst : ∀ classifier parent, parent ∈ program.parents classifier →
    ¬ program.Inherits parent classifier →
      [parent, classifier].Sublist program.inheritanceOrder

/-- Every program orders inheritance, one with cycles too. -/
theorem ordersInheritance (program : Program) : program.OrdersInheritance := by
  obtain ⟨covers, reached, distinct, sorted⟩ := program.inheritanceOrder_parentsFirst
  have isClassifier {child parent : ClassifierIndex} (isParent : parent ∈ program.parents child) :
      child ∈ program.classifiers := by
    by_contra absent
    rw [parents_of_not_mem child absent] at isParent
    cases isParent
  have mem_iff (classifier : ClassifierIndex) : classifier ∈ program.inheritanceOrder ↔
      program.HoldsClassifier classifier ∨ ∃ child, classifier ∈ program.parents child := by
    rw [← mem_classifiers]
    constructor
    · intro listed
      obtain ⟨heir, isHeir, inherits⟩ := reached classifier listed
      rcases ReflTransGen.cases_tail inherits with rfl | ⟨child, -, isParent⟩
      · exact .inl isHeir
      · exact .inr ⟨child, isParent⟩
    · rintro (held | ⟨child, isParent⟩)
      · exact covers held
      · obtain ⟨earlier, later, split⟩ := List.append_of_mem (covers (isClassifier isParent))
        rcases sorted earlier child later split classifier isParent with before | back
        · exact split ▸ List.mem_append_left _ before
        · -- a parent on a cycle through its child has a parent itself
          rcases ReflTransGen.cases_head back with rfl | ⟨next, isNext, -⟩
          · exact covers (isClassifier isParent)
          · exact covers (isClassifier isNext)
  refine ⟨?_, distinct, mem_iff, fun inside => ?_, ?_⟩
  · intro bound larger
    exact Graph.postOrder_of_le program.nodup_classifiers parents_of_not_mem
      (Nat.lt_succ_self _) larger program.classifiers
  · refine (List.perm_ext_iff_of_nodup distinct program.nodup_classifiers).mpr fun classifier => ?_
    rw [mem_iff, ← mem_classifiers, or_iff_left_of_imp]
    rintro ⟨child, isParent⟩
    exact inside child isParent
  · intro classifier parent isParent apart
    obtain ⟨earlier, later, split⟩ := List.append_of_mem (covers (isClassifier isParent))
    have before := (sorted earlier classifier later split parent isParent).resolve_right apart
    rw [split]
    exact (List.singleton_sublist.mpr before).append
      (List.singleton_sublist.mpr List.mem_cons_self)

end Program
end DomainLang
