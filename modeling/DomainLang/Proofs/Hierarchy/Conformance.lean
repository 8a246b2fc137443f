import DomainLang.Proofs.Arena
import DomainLang.Proofs.Graph.Coverage
import DomainLang.Temporal.Inference
import Mathlib.Algebra.Order.BigOperators.Group.List
import Mathlib.Algebra.Order.Ring.Nat

/-!
# Conformance is reachability

The searches through a hierarchy find exactly what can be reached, in every program and
whatever cycles it has. The superclass chain of a class follows superclasses up to the first
repetition, so it lists the other classes above it; the search through interfaces starts at
those of the whole chain. Together they find every classifier that a classifier inherits
from, so conforming is the reflexive and transitive closure of having a parent.

Records that are not there have no parents, so no search needs to know that superclasses and
interfaces are there.
-/

namespace DomainLang.Program

open Relation (ReflTransGen TransGen)

variable {program : Program} {interface : InterfaceIndex} {klass : ClassIndex}

/-- The first class names the second as its superclass, and it was found. -/
def HasSuperclass (program : Program) (klass parent : ClassIndex) : Prop :=
  program.superclass? klass = some parent

/-- The first interface names the second, and it was found. -/
def HasInterface (program : Program) (interface parent : InterfaceIndex) : Prop :=
  parent ∈ program.parentInterfaces interface

/-- The second classifier is the superclass or a direct interface of the first. -/
def HasParent (program : Program) (classifier parent : ClassifierIndex) : Prop :=
  parent ∈ program.parents classifier

/-- A classifier is another one or inherits from it. -/
def Inherits (program : Program) : ClassifierIndex → ClassifierIndex → Prop :=
  ReflTransGen fun classifier parent => parent ∈ program.parents classifier

section Paths

/-- Interfaces inherit from interfaces only. -/
theorem exists_interface_of_inherits {ancestor : ClassifierIndex}
    (inherits : program.Inherits (.interface interface) ancestor) :
    ∃ other, ancestor = .interface other ∧ ReflTransGen program.HasInterface interface other := by
  induction inherits with
  | refl => exact ⟨interface, rfl, .refl⟩
  | tail _ step ih =>
    obtain ⟨middle, rfl, reaches⟩ := ih
    obtain ⟨last, implemented, rfl⟩ := List.mem_map.mp step
    exact ⟨last, rfl, reaches.tail implemented⟩

/-- The parents of a class. -/
theorem mem_parents_klass {parent : ClassifierIndex} :
    parent ∈ program.parents (.klass klass) ↔
      (∃ superclass, program.HasSuperclass klass superclass ∧ parent = .klass superclass) ∨
        ∃ interface ∈ (program.classes.get klass).resolvedInterfaces,
          parent = .interface interface := by
  simp only [parents, List.mem_append, List.mem_map, Option.mem_toList,
    eq_comm (a := parent)]
  rfl

/-- A class inherits from a class along superclasses only, and from an interface by way of a
class that names an interface. -/
theorem inherits_klass {ancestor : ClassifierIndex}
    (inherits : program.Inherits (.klass klass) ancestor) :
    ∃ above, ReflTransGen program.HasSuperclass klass above ∧
      (ancestor = .klass above ∨
        ∃ start ∈ (program.classes.get above).resolvedInterfaces, ∃ interface,
          ancestor = .interface interface ∧ ReflTransGen program.HasInterface start interface) := by
  generalize origin : ClassifierIndex.klass klass = first at inherits
  induction inherits using ReflTransGen.head_induction_on generalizing klass with
  | refl => exact ⟨klass, .refl, .inl origin.symm⟩
  | head step onward ih =>
    subst origin
    rcases mem_parents_klass.mp step with ⟨superclass, named, rfl⟩ | ⟨start, implemented, rfl⟩
    · obtain ⟨above, reaches, found⟩ := ih rfl
      exact ⟨above, .head named reaches, found⟩
    · obtain ⟨interface, rfl, reaches⟩ := exists_interface_of_inherits onward
      exact ⟨klass, .refl, .inr ⟨start, implemented, interface, rfl, reaches⟩⟩

/-- A class inherits from a class along superclasses only. -/
theorem inherits_klass_iff {ancestor : ClassIndex} :
    program.Inherits (.klass klass) (.klass ancestor) ↔
      ReflTransGen program.HasSuperclass klass ancestor := by
  constructor
  · intro inherits
    obtain ⟨above, reaches, same | ⟨_, _, _, absurd, _⟩⟩ := inherits_klass inherits
    · cases same
      exact reaches
    · cases absurd
  · refine ReflTransGen.lift ClassifierIndex.klass ?_ _ _
    exact fun child parent named => mem_parents_klass.mpr (.inl ⟨parent, named, rfl⟩)

theorem inherits_interface_iff {ancestor : InterfaceIndex} :
    program.Inherits (.interface interface) (.interface ancestor) ↔
      ReflTransGen program.HasInterface interface ancestor := by
  constructor
  · intro inherits
    obtain ⟨other, same, reaches⟩ := exists_interface_of_inherits inherits
    cases same
    exact reaches
  · exact ReflTransGen.lift ClassifierIndex.interface (fun _ _ => List.mem_map_of_mem) _ _

end Paths

section Superclasses

/-- A class that is not there has no superclass. -/
theorem superclass?_of_not_mem (klass : ClassIndex) (absent : klass ∉ program.classes.indices) :
    program.superclass? klass = none := by
  rw [superclass?, Arena.get_of_not_holds (mt Arena.mem_indices.mpr absent)]
  rfl

theorem length_indices_lt (program : Program) :
    program.classes.indices.length < program.classes.size + 1 :=
  program.classes.length_indices.trans_lt (Nat.lt_succ_self _)

theorem mem_superclassChain_iff {ancestor : ClassIndex} :
    ancestor ∈ program.superclassChain klass ↔
      ancestor ≠ klass ∧ ReflTransGen program.HasSuperclass klass ancestor :=
  Graph.mem_follow_next_iff program.classes.nodup_indices superclass?_of_not_mem
    program.length_indices_lt

theorem isSubclassOf_iff {ancestor : ClassIndex} :
    program.isSubclassOf klass ancestor ↔ ReflTransGen program.HasSuperclass klass ancestor := by
  rw [isSubclassOf, Bool.or_eq_true, decide_eq_true_iff, decide_eq_true_iff]
  exact Graph.eq_or_mem_follow_next_iff program.classes.nodup_indices superclass?_of_not_mem
    program.length_indices_lt

theorem mem_lineage_klass {ancestor : ClassifierIndex} :
    ancestor ∈ program.lineage (.klass klass) ↔
      ∃ above, ancestor = .klass above ∧ ReflTransGen program.HasSuperclass klass above := by
  rw [lineage, List.mem_cons, List.mem_map]
  constructor
  · rintro (rfl | ⟨above, chained, rfl⟩)
    · exact ⟨klass, rfl, .refl⟩
    · exact ⟨above, rfl, (mem_superclassChain_iff.mp chained).2⟩
  · rintro ⟨above, rfl, reaches⟩
    by_cases same : above = klass
    · exact .inl (congrArg _ same)
    · exact .inr ⟨above, mem_superclassChain_iff.mpr ⟨same, reaches⟩, rfl⟩

/-- A class is reported to be below itself exactly when it is. -/
theorem superclassCycle_iff {parent : ClassIndex} (named : program.HasSuperclass klass parent) :
    program.superclassCycle klass parent ↔ TransGen program.HasSuperclass klass klass := by
  rw [superclassCycle, decide_eq_true_iff, Graph.mem_follow_iff program.classes.nodup_indices
    superclass?_of_not_mem program.length_indices_lt, TransGen.head'_iff]
  constructor
  · exact fun reaches => ⟨parent, named, reaches⟩
  · rintro ⟨first, step, reaches⟩
    cases step.symm.trans named
    exact reaches

end Superclasses

section Interfaces

/-- An interface that is not there names none. -/
theorem parentInterfaces_of_not_mem (interface : InterfaceIndex)
    (absent : interface ∉ program.interfaces.indices) :
    program.parentInterfaces interface = [] := by
  rw [parentInterfaces, Arena.get_of_not_holds (mt Arena.mem_indices.mpr absent)]
  rfl

/-- No more interfaces are found than are named. -/
theorem length_parentInterfaces_le (program : Program) :
    (program.interfaces.indices.flatMap program.parentInterfaces).length ≤
      program.interfaceEdges := by
  rw [interfaceEdges, Arena.records_eq_map_get, List.flatMap_map, List.length_flatMap,
    List.length_flatMap]
  exact List.sum_le_sum fun index _ => List.length_filterMap_le ..

theorem mem_reachableInterfaces_iff {queue : List InterfaceIndex} :
    interface ∈ program.reachableInterfaces [] queue ↔
      ∃ start ∈ queue, ReflTransGen program.HasInterface start interface :=
  Graph.mem_breadthFirst_iff program.interfaces.nodup_indices parentInterfaces_of_not_mem
    (Nat.add_le_add_left program.length_parentInterfaces_le _)

/-- An interface is reported to be below itself exactly when it is. -/
theorem interfaceCycle_iff :
    program.interfaceCycle interface ↔ TransGen program.HasInterface interface interface := by
  rw [interfaceCycle, decide_eq_true_iff, mem_reachableInterfaces_iff, TransGen.head'_iff]
  rfl

theorem nodup_allInterfaces (program : Program) (classifier : ClassifierIndex) :
    (program.allInterfaces classifier).Nodup := by
  cases classifier <;> exact Graph.nodup_breadthFirst ..

/-- The interfaces of a classifier are those it inherits from, without itself. -/
theorem mem_allInterfaces_iff {classifier : ClassifierIndex} :
    interface ∈ program.allInterfaces classifier ↔
      .interface interface ≠ classifier ∧ program.Inherits classifier (.interface interface) := by
  cases classifier with
  | interface index =>
    have queue : ((program.lineage (.interface index)).flatMap fun ancestor =>
        (program.classifier ancestor).resolvedInterfaces) = program.parentInterfaces index := by
      simp [lineage, parentInterfaces, classifier]
    rw [allInterfaces, queue, reachableInterfaces,
      Graph.mem_breadthFirst_neighbours_iff program.interfaces.nodup_indices
        parentInterfaces_of_not_mem (Nat.add_le_add_left program.length_parentInterfaces_le _)]
    rw [inherits_interface_iff, ne_eq, ne_eq, ClassifierIndex.interface.injEq]
    rfl
  | klass klass =>
    rw [allInterfaces, mem_reachableInterfaces_iff]
    constructor
    · rintro ⟨start, queued, reaches⟩
      obtain ⟨ancestor, above, implemented⟩ := List.mem_flatMap.mp queued
      obtain ⟨above, rfl, below⟩ := mem_lineage_klass.mp above
      refine ⟨by simp, (inherits_klass_iff.mpr below).trans (.head ?_
        (inherits_interface_iff.mpr reaches))⟩
      exact mem_parents_klass.mpr (.inr ⟨start, implemented, rfl⟩)
    · rintro ⟨-, inherits⟩
      obtain ⟨above, below, absurd | ⟨start, implemented, other, same, reaches⟩⟩ :=
        inherits_klass inherits
      · cases absurd
      · cases same
        have inLineage := mem_lineage_klass.mpr ⟨above, rfl, below⟩
        exact ⟨start, List.mem_flatMap.mpr ⟨_, inLineage, implemented⟩, reaches⟩

end Interfaces

theorem not_inherits_interface_klass :
    ¬ program.Inherits (.interface interface) (.klass klass) := by
  intro inherits
  obtain ⟨_, absurd, -⟩ := exists_interface_of_inherits inherits
  cases absurd

/-- A classifier conforms to exactly what it inherits from. -/
theorem conforms_iff {sub super : ClassifierIndex} :
    program.conforms sub super ↔ program.Inherits sub super := by
  rw [conforms.eq_def, Bool.or_eq_true, decide_eq_true_iff]
  by_cases same : sub = super
  · exact iff_of_true (.inl same) (same ▸ .refl)
  · rw [or_iff_right same]
    cases super with
    | interface interface =>
      have implemented : interface ∈ program.allInterfaces sub ↔
          program.Inherits sub (.interface interface) :=
        mem_allInterfaces_iff.trans (and_iff_right (Ne.symm same))
      rw [← implemented]
      cases sub <;> simp [implements]
    | klass ancestor =>
      cases sub with
      | interface index => exact iff_of_false Bool.false_ne_true not_inherits_interface_klass
      | klass klass => exact isSubclassOf_iff.trans inherits_klass_iff.symm

/-- Properties come from exactly the classifiers that a classifier conforms to. -/
theorem mem_propertySources {classifier source : ClassifierIndex} :
    source ∈ program.propertySources classifier ↔ program.conforms classifier source := by
  rw [conforms_iff, propertySources, List.mem_append, List.mem_map]
  cases source with
  | interface interface =>
    simp only [ClassifierIndex.interface.injEq, exists_eq_right, mem_allInterfaces_iff]
    cases classifier with
    | interface index =>
      rw [lineage, List.mem_singleton]
      constructor
      · rintro (same | ⟨-, inherits⟩)
        · exact same ▸ .refl
        · exact inherits
      · intro inherits
        by_cases same : ClassifierIndex.interface interface = .interface index
        · exact .inl same
        · exact .inr ⟨same, inherits⟩
    | klass klass => simp [mem_lineage_klass]
  | klass ancestor =>
    rw [or_iff_left (by simp)]
    cases classifier with
    | interface index => exact iff_of_false (by simp [lineage]) not_inherits_interface_klass
    | klass klass => simp [mem_lineage_klass, inherits_klass_iff]

/-- What the searches through a hierarchy find, with every number of steps from the one they
are given. -/
structure ExactHierarchy (program : Program) : Prop where
  conforms : ∀ sub super,
    program.conforms sub super ↔ ReflTransGen program.HasParent sub super
  refl : ∀ classifier, program.conforms classifier classifier
  trans : ∀ sub middle super, program.conforms sub middle → program.conforms middle super →
    program.conforms sub super
  chain_nodup : ∀ klass, (program.superclassChain klass).Nodup
  /-- Each class of the chain is the superclass of the one before. -/
  chain_nearest : ∀ klass,
    (klass :: program.superclassChain klass).IsChain program.HasSuperclass
  mem_chain : ∀ klass ancestor, ancestor ∈ program.superclassChain klass ↔
    ancestor ≠ klass ∧ ReflTransGen program.HasSuperclass klass ancestor
  chain_ends : ∀ klass bound, program.classes.size + 1 ≤ bound →
    Graph.follow program.superclass? bound [klass] (program.superclass? klass) =
      program.superclassChain klass
  interfaces_nodup : ∀ classifier, (program.allInterfaces classifier).Nodup
  mem_interfaces : ∀ classifier interface, interface ∈ program.allInterfaces classifier ↔
    .interface interface ≠ classifier ∧
      TransGen program.HasParent classifier (.interface interface)
  interfaces_end : ∀ seen queue bound, queue.length + program.interfaceEdges ≤ bound →
    Graph.breadthFirst program.parentInterfaces bound seen queue =
      program.reachableInterfaces seen queue

/-- In every program the searches through the hierarchy are exact. -/
theorem exactHierarchy (program : Program) : program.ExactHierarchy where
  conforms _ _ := conforms_iff
  refl _ := conforms_iff.mpr .refl
  trans _ _ _ first second :=
    conforms_iff.mpr ((conforms_iff.mp first).trans (conforms_iff.mp second))
  chain_nodup _ := Graph.nodup_follow ..
  chain_nearest _ := Graph.isChain_follow _ _ rfl
  mem_chain _ _ := mem_superclassChain_iff
  chain_ends klass bound larger :=
    Graph.follow_of_le program.classes.nodup_indices superclass?_of_not_mem larger _ _
      (Nat.lt_of_le_of_lt (List.length_filter_le ..) program.length_indices_lt)
  interfaces_nodup := program.nodup_allInterfaces
  mem_interfaces classifier interface := by
    rw [mem_allInterfaces_iff]
    refine and_congr_right fun apart => ?_
    rw [Inherits, Relation.reflTransGen_iff_eq_or_transGen, or_iff_right apart]
    rfl
  interfaces_end seen queue bound larger := by
    have edges : ((Graph.unseen program.interfaces.indices seen).flatMap
        program.parentInterfaces).length ≤ program.interfaceEdges := by
      refine Nat.le_trans ?_ program.length_parentInterfaces_le
      rw [List.length_flatMap, List.length_flatMap]
      exact (List.filter_sublist.map _).sum_le_sum fun _ _ => Nat.zero_le _
    exact Graph.breadthFirst_of_le program.interfaces.nodup_indices parentInterfaces_of_not_mem
      larger seen queue (Nat.add_le_add_left edges _)

end DomainLang.Program
