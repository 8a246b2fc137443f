import DomainLang.Compiler
import DomainLang.Proofs.Declaration.Members
import DomainLang.Proofs.Syntax.Numbered
import Mathlib.Data.List.Flatten
import Mathlib.Data.List.Perm.Subperm

/-!
# The units of source files

Source files become units with the ids 0, 1, 2, …, and their declarations stay as they were
written. When no tree has more nodes than there are ids, the contexts of the records that
the declarations and their members get are all different.
-/

namespace DomainLang

namespace Syntax

theorem Url.recordIds_sublist (url : Url) :
    url.recordIds.Sublist (url.nodes.map Node.id) := by
  have segments : (url.path.flatMap UrlSegment.recordIds).Sublist
      ((url.path.flatMap UrlSegment.nodes).map Node.id) := by
    rw [List.map_flatMap]
    refine List.Sublist.flatMap_right _ fun segment _ => ?_
    cases segment <;> exact .refl _
  have parameters : (url.queryParameters.map (·.id)).Sublist
      ((url.queryParameters.flatMap Parameter.nodes).map Node.id) := by
    rw [List.map_flatMap, List.map_eq_flatMap]
    exact List.Sublist.flatMap_right _ fun parameter _ => by simp [Parameter.nodes]
  have services : (url.services.map (·.id)).Sublist
      ((url.services.flatMap Service.nodes).map Node.id) := by
    rw [List.map_flatMap, List.map_eq_flatMap]
    exact List.Sublist.flatMap_right _ fun service _ => by simp [Service.nodes]
  simpa [Url.recordIds, Url.nodes] using segments.append (parameters.append services)

theorem Member.ids_sublist (members : List Member) :
    (members.map Member.id).Sublist ((members.flatMap Member.nodes).map Node.id) := by
  rw [List.map_flatMap, List.map_eq_flatMap]
  refine List.Sublist.flatMap_right _ fun member _ => ?_
  cases member <;> simp [Member.id, Member.nodes, Property.nodes, EndSignature.nodes]

/-- The nodes that get records are among the nodes of the declaration, each once. -/
theorem Declaration.recordIds_subperm (declaration : Declaration) :
    (declaration.recordIds ++ declaration.members.map Member.id).Subperm
      (declaration.nodes.map Node.id) := by
  have sorted : (declaration.recordIds ++ declaration.members.map Member.id).Perm
      (declaration.node.id :: (declaration.innerIds ++ declaration.members.map Member.id)) := by
    simp [recordIds, List.perm_middle]
  refine sorted.subperm.trans (List.Sublist.subperm ?_)
  cases declaration with
  | enumeration _ | projection _ =>
    simp [node, innerIds, members, members?, nodes, Enumeration.nodes, Projection.nodes]
  | interface declaration =>
    simpa [node, innerIds, members, members?, nodes, Interface.nodes] using
      (Member.ids_sublist declaration.members).trans (List.sublist_append_right ..)
  | klass declaration =>
    simpa [node, innerIds, members, members?, nodes, Class.nodes] using
      (Member.ids_sublist declaration.members).trans (List.sublist_append_right ..)
  | association declaration =>
    simp [node, innerIds, members, members?, nodes, Association.nodes, AssociationEnd.nodes]
  | serviceGroup declaration =>
    simp only [node, innerIds, members, members?, nodes, ServiceGroup.nodes, Option.getD_none,
      List.map_nil, List.append_nil, List.map_cons, List.map_flatMap]
    exact .cons_cons _ (List.Sublist.flatMap_right _ fun url _ => url.recordIds_sublist)

end Syntax

namespace SourceSet

theorem ofTrees_concat (trees : List (String × Syntax.SourceTree))
    (entry : String × Syntax.SourceTree) :
    ofTrees (trees ++ [entry]) = (ofTrees trees).add entry.1 "" entry.2 := by
  simp [ofTrees]

/-- There is one file for each tree, in order, of which only the name is known. -/
theorem files_ofTrees (trees : List (String × Syntax.SourceTree)) :
    (ofTrees trees).sources.files = trees.map fun entry => ⟨entry.1, ""⟩ := by
  induction trees using List.reverseRecOn with
  | nil => rfl
  | append_singleton trees entry ih =>
    rw [ofTrees_concat]
    simp [add, SourceMap.add, ih]

/-- The unit of a source file at a position. -/
def unitAt (position : Nat) (entry : String × Syntax.SourceTree) : CompilationUnit :=
  .ofTree ⟨position⟩ entry.1 (entry.2.numbered (.retarget (UInt16.ofNat (min position 65535))))

/-- There is one unit for each source file, in order. -/
theorem units_ofTrees (trees : List (String × Syntax.SourceTree)) :
    (ofTrees trees).units = trees.mapIdx unitAt := by
  induction trees using List.reverseRecOn with
  | nil => rfl
  | append_singleton trees entry ih =>
    rw [ofTrees_concat]
    simp [add, ih, SourceMap.nextFileId, files_ofTrees,
      List.mapIdx_append, unitAt]

/-- The units have distinct ids. -/
theorem nodup_unitIds (trees : List (String × Syntax.SourceTree)) :
    ((ofTrees trees).units.map (·.id)).Nodup := by
  have ids : (ofTrees trees).units.map (·.id) = (List.range trees.length).map UnitId.mk := by
    rw [units_ofTrees]
    exact List.ext_getElem (by simp) (by simp [unitAt, CompilationUnit.ofTree])
  rw [ids]
  exact List.Nodup.map (fun _ _ same => UnitId.mk.inj same) List.nodup_range

/-- The declarations of the units are the written ones, each in the unit of its file. -/
theorem stripped_declarationsOf (trees : List (String × Syntax.SourceTree)) :
    (declarationsOf (ofTrees trees).units).map (fun written =>
        (written.1.sourceName, written.2.stripped)) =
      trees.flatMap fun entry => entry.2.elements.map fun element =>
        (entry.1, element.stripped) := by
  induction trees using List.reverseRecOn with
  | nil => rfl
  | append_singleton trees entry ih =>
    have same (mode : Syntax.SpanMode) :
        ((entry.2.numbered mode).numbered .keep).elements.map Syntax.Declaration.stripped =
          entry.2.elements.map Syntax.Declaration.stripped := by
      have whole : ((entry.2.numbered mode).numbered .keep).stripped = entry.2.stripped := by simp
      exact congrArg Syntax.SourceTree.elements whole
    have named (mode : Syntax.SpanMode) := congrArg (List.map (entry.1, ·)) (same mode)
    simp only [List.map_map, Function.comp_def] at named
    rw [ofTrees_concat]
    simp only [declarationsOf, add, List.flatMap_append, List.map_append] at ih ⊢
    rw [ih]
    simp [CompilationUnit.elements, CompilationUnit.ofTree, CompilationUnit.tree?,
      Function.comp_def, named]

end SourceSet

namespace CompilationUnit

/-- The nodes of a unit that get records. -/
def recordIds (unit : CompilationUnit) : List NodeId :=
  unit.elements.flatMap fun element => element.recordIds ++ element.members.map Syntax.Member.id

/-- The nodes that get records are among the nodes of the unit, each once. -/
theorem recordIds_subperm (unit : CompilationUnit) :
    unit.recordIds.Subperm
      ((unit.elements.flatMap Syntax.Declaration.nodes).map Syntax.Node.id) := by
  unfold recordIds
  induction unit.elements with
  | nil => exact List.nil_subperm
  | cons element elements ih =>
    simpa using element.recordIds_subperm.append ih

end CompilationUnit

/-- The contexts of declarations and members, sorted by unit. -/
theorem recordKeys_perm (units : List CompilationUnit) :
    (recordKeys (declarationsOf units) ++ (declarationsOf units).flatMap memberKeys).Perm
      (units.flatMap fun unit => unit.recordIds.map unit.context) := by
  refine (List.flatMap_append_perm _ _ _).trans (List.Perm.of_eq ?_)
  simp [declarationsOf, List.flatMap_assoc, CompilationUnit.recordIds, memberKeys,
    List.flatMap_map, List.map_flatMap, Function.comp_def]

/-- The contexts are distinct when units and the nodes of each unit are. -/
theorem nodup_recordKeys {units : List CompilationUnit} (distinctUnits : (units.map (·.id)).Nodup)
    (distinctNodes : ∀ unit ∈ units,
      ((unit.elements.flatMap Syntax.Declaration.nodes).map Syntax.Node.id).Nodup) :
    (recordKeys (declarationsOf units) ++ (declarationsOf units).flatMap memberKeys).Nodup := by
  rw [(recordKeys_perm units).nodup_iff, List.nodup_flatMap]
  constructor
  · intro unit member
    obtain ⟨sorted, perm, sublist⟩ := unit.recordIds_subperm
    have distinct : unit.recordIds.Nodup :=
      perm.nodup_iff.mp ((distinctNodes unit member).sublist sublist)
    exact distinct.map fun _ _ same => (ContextKey.mk.inj same).2
  · refine (List.pairwise_map.mp distinctUnits).imp fun apart key left right => apart ?_
    obtain ⟨_, _, rfl⟩ := List.mem_map.mp left
    obtain ⟨_, _, same⟩ := List.mem_map.mp right
    exact (ContextKey.mk.inj same).1.symm

namespace SourceSet

/-- Declarations and members of source files that are not too large have distinct contexts. -/
theorem nodup_recordKeys_ofTrees (trees : List (String × Syntax.SourceTree))
    (small : ∀ entry ∈ trees, entry.2.nodes.length < UInt32.size) :
    (recordKeys (declarationsOf (ofTrees trees).units) ++
      (declarationsOf (ofTrees trees).units).flatMap memberKeys).Nodup := by
  refine nodup_recordKeys (nodup_unitIds trees) fun unit member => ?_
  rw [units_ofTrees, List.mem_mapIdx] at member
  obtain ⟨position, inside, rfl⟩ := member
  have bound := small _ (List.getElem_mem inside)
  let mode : Syntax.SpanMode := .retarget (UInt16.ofNat (min position 65535))
  have distinct := Syntax.SourceTree.nodup_ids_numbered .keep (trees[position].2.numbered mode)
    (by rw [← List.length_map (f := Syntax.Node.id), Syntax.SourceTree.ids_numbered,
      Syntax.Numbering.length_idsFrom]; omega)
  exact (List.nodup_cons.mp distinct).2

end SourceSet
end DomainLang
