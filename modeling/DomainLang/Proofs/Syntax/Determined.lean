import DomainLang.Proofs.Collection
import DomainLang.Proofs.Syntax.Numbered

/-!
# Trees are their words, ids and spans

A tree is determined by its stripped form, the ids of its nodes and its spans, so these three
views together miss nothing that numbering could change. They are read off from the front: what
follows the ids and spans of one piece of syntax is left for the next, and the stripped form says
where to stop. Numbering gives consecutive ids whatever the nodes had before, so it depends on
the words and spans of a tree only, and to do it once more changes nothing.
-/

namespace DomainLang.Syntax

/-- Trees with one stripped form are equal where their ids and their spans are, also in front of
equal sequences. -/
theorem SourceTree.pins_of_stripped {tree other : SourceTree}
    (same : tree.stripped = other.stripped) :
    Pins tree.nodes other.nodes tree.spans other.spans (tree = other) := by
  have visits : Numbering.Visits .keep {} _ _ _ _ _ _ (tree = other) :=
    Numbering.visited_tree {} same
  exact visits.pins

namespace Numbering

theorem toNat_add_one {start : UInt32} {node : Node} {nodes : List Node}
    (small : start.toNat + (node :: nodes).length < UInt32.size) :
    (start + 1).toNat = start.toNat + 1 := by
  rw [List.length_cons, UInt32.size] at small
  rw [UInt32.toNat_add, UInt32.toNat_one]
  exact Nat.mod_eq_of_lt (by omega)

/-- The ids count on from the first one as long as there are machine words left. -/
theorem values_idsFrom (start : UInt32) (nodes : List Node)
    (small : start.toNat + nodes.length < UInt32.size) :
    (idsFrom start nodes).map (·.value.toNat) = List.range' start.toNat nodes.length := by
  induction nodes generalizing start with
  | nil => rfl
  | cons node nodes ih =>
    have next := toNat_add_one small
    rw [List.length_cons] at small
    rw [idsFrom, List.map_cons, ih (start + 1) (by omega), next, List.length_cons,
      List.range'_succ]

theorem toNat_advanced (start : UInt32) (nodes : List Node)
    (small : start.toNat + nodes.length < UInt32.size) :
    (advanced start nodes).toNat = start.toNat + nodes.length := by
  induction nodes generalizing start with
  | nil => rfl
  | cons node nodes ih =>
    have next := toNat_add_one small
    rw [List.length_cons] at small
    rw [advanced, ih (start + 1) (by omega), next, List.length_cons]
    omega

/-- The ids do not depend on the nodes: fewer nodes get the first of them. -/
theorem idsFrom_isPrefix (start : UInt32) {nodes others : List Node}
    (fewer : nodes.length ≤ others.length) :
    ∃ later, idsFrom start others = idsFrom start nodes ++ later := by
  induction nodes generalizing start others with
  | nil => exact ⟨_, rfl⟩
  | cons node nodes ih =>
    cases others with
    | nil => simp at fewer
    | cons other others =>
      obtain ⟨later, same⟩ := ih (start + 1) (Nat.le_of_succ_le_succ fewer)
      exact ⟨later, congrArg (NodeId.mk start :: ·) same⟩

end Numbering

namespace SourceTree

/-- What numbering makes of a tree depends on its words and on where its spans go. -/
theorem numbered_congr {mode : SpanMode} {tree other : SourceTree}
    (same : tree.stripped = other.stripped)
    (spans : (tree.numbered mode).spans = (other.numbered mode).spans) :
    tree.numbered mode = other.numbered mode := by
  wlog fewer : tree.nodes.length ≤ other.nodes.length generalizing tree other
  · exact (this same.symm spans.symm (by omega)).symm
  obtain ⟨later, ids⟩ := Numbering.idsFrom_isPrefix 1 fewer
  rw [← ids_numbered mode, ← ids_numbered mode] at ids
  have words : (tree.numbered mode).stripped = (other.numbered mode).stripped := by
    rw [stripped_numbered, stripped_numbered, same]
  -- The ids of the second tree start with those of the first, and no more can follow.
  have front := ids.symm.trans (List.append_nil _).symm
  exact (pins_of_stripped words front (congrArg (· ++ []) spans)).1

/-- Where moving a span twice is moving it once, numbering twice is numbering once. -/
theorem numbered_numbered {mode : SpanMode} (steady : mode.Steady)
    (twice : ∀ span, mode.place 0 (mode.place 0 span) = mode.place 0 span) (tree : SourceTree) :
    (tree.numbered mode).numbered mode = tree.numbered mode := by
  apply numbered_congr (stripped_numbered mode tree)
  rw [spans_numbered steady, spans_numbered steady, List.map_map]
  exact List.map_congr_left fun span _ => twice span

/-- The spans lie at one place of two files that may differ. -/
def SamePlace (span twin : Span) : Prop :=
  span.start = twin.start ∧ span.stop = twin.stop ∧ span.startLine = twin.startLine

/-- The trees differ at most in the ids of their nodes and the files of their spans. -/
def AgreesUpToFiles (tree other : SourceTree) : Prop :=
  tree.stripped = other.stripped ∧ List.Forall₂ SamePlace tree.spans other.spans

theorem AgreesUpToFiles.numbered_eq {tree other : SourceTree} (agrees : tree.AgreesUpToFiles other)
    (fileId : UInt16) : tree.numbered (.retarget fileId) = other.numbered (.retarget fileId) := by
  obtain ⟨words, places⟩ := agrees
  apply numbered_congr words
  rw [spans_numbered fun _ => rfl, spans_numbered fun _ => rfl]
  have moved : List.Forall₂ (· = ·) (tree.spans.map ((SpanMode.retarget fileId).place 0))
      (other.spans.map ((SpanMode.retarget fileId).place 0)) := by
    refine List.forall₂_map_left_iff.mpr (List.forall₂_map_right_iff.mpr (places.imp ?_))
    rintro span twin ⟨start, stop, startLine⟩
    simp only [SpanMode.place, start, stop, startLine]
  exact List.forall₂_eq_eq_eq ▸ moved

/-- The nodes of a tree that is not too large get the ids 1, 2, 3, … in order, each node before
its parts. Beside ids numbering changes spans only, all of them in the way of its mode. Unless
spans are put on lines, numbering once more changes nothing, and trees that differed in ids and
files only are equal once they are moved to one file. -/
theorem numbered_in_order (tree : SourceTree) (small : tree.nodes.length < UInt32.size - 1) :
    (∀ mode,
      (tree.numbered mode).nodes.map (·.id.value.toNat) = List.range' 1 tree.nodes.length ∧
        (tree.number mode).2.toNat = tree.nodes.length ∧
        (tree.numbered mode).stripped = tree.stripped) ∧
      (∀ other : SourceTree, tree.stripped = other.stripped →
        tree.nodes.map Node.id = other.nodes.map Node.id → tree.spans = other.spans →
        tree = other) ∧
      (tree.numbered .keep).spans = tree.spans ∧
      (∀ fileId,
        (tree.numbered (.retarget fileId)).spans = tree.spans.map ({ · with fileId })) ∧
      (∀ anchor, (tree.numbered (.anchor anchor)).spans = tree.spans.map fun _ => anchor) ∧
      (∀ mode, (∀ fileId, mode ≠ .lines fileId) →
        (tree.numbered mode).numbered mode = tree.numbered mode) ∧
      ∀ other, tree.AgreesUpToFiles other → ∀ fileId,
        tree.numbered (.retarget fileId) = other.numbered (.retarget fileId) := by
  have room : (1 : UInt32).toNat + tree.nodes.length < UInt32.size := by
    rw [UInt32.toNat_one]; omega
  refine ⟨fun mode => ⟨?_, ?_, stripped_numbered mode tree⟩, ?_, spans_numbered_keep tree,
    fun _ => spans_numbered (fun _ => rfl) tree, fun _ => spans_numbered (fun _ => rfl) tree,
    ?_, fun other agrees => agrees.numbered_eq⟩
  · rw [← Function.comp_def (fun id : NodeId => id.value.toNat), ← List.map_map, ids_numbered,
      Numbering.values_idsFrom 1 _ room]
    rfl
  · have next := (Numbering.numbers_tree mode {} tree).next
    have taken := Numbering.toNat_advanced 1 tree.nodes room
    change (((Numbering.tree mode tree).leaves {}).next - 1).toNat = _
    rw [next, UInt32.toNat_sub_of_le _ _ (UInt32.le_iff_toNat_le.mpr (by rw [taken]; omega)), taken]
    omega
  · intro other words ids spans
    exact (pins_of_stripped words (congrArg (· ++ []) ids) (congrArg (· ++ []) spans)).1
  · intro mode noLines
    cases mode with
    | keep => exact numbered_numbered (fun _ => rfl) (fun _ => rfl) tree
    | retarget fileId => exact numbered_numbered (fun _ => rfl) (fun _ => rfl) tree
    | lines fileId => exact absurd rfl (noLines fileId)
    | anchor span => exact numbered_numbered (fun _ => rfl) (fun _ => rfl) tree

/-- A file with an enumeration, two of whose nodes share an id. -/
def palette : SourceTree where
  package := { id := ⟨9⟩, span := ⟨3, 0, 11, 1⟩, name := "art" }
  elements :=
    [.enumeration {
      id := ⟨4⟩, span := ⟨3, 12, 40, 2⟩, name := ⟨"Colour", ⟨3, 24, 30, 2⟩⟩
      literals := [{
        id := ⟨4⟩, span := ⟨3, 34, 38, 3⟩, name := ⟨"RED", ⟨3, 34, 37, 3⟩⟩, prettyName := none }] }]

theorem numbered_in_order_palette :
    palette.nodes.length = 3 ∧
      (palette.numbered (.retarget 5)).nodes.map (·.id.value.toNat) = [1, 2, 3] ∧
      (palette.numbered .keep).numbered .keep = palette.numbered .keep ∧
      (palette.numbered (.retarget 7)).numbered (.retarget 5) = palette.numbered (.retarget 5) := by
  obtain ⟨ids, -, -, -, -, again, agree⟩ := numbered_in_order palette (by decide)
  refine ⟨rfl, (ids (.retarget 5)).1, again .keep (fun _ same => by cases same), ?_⟩
  refine (agree _ ⟨(stripped_numbered _ _).symm, ?_⟩ 5).symm
  rw [spans_numbered fun _ => rfl]
  exact List.forall₂_map_right_iff.mpr (List.forall₂_same.mpr fun _ _ => ⟨rfl, rfl, rfl⟩)

end SourceTree
end DomainLang.Syntax
