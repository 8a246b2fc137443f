import DomainLang.Proofs.Syntax.Numbered
import DomainLang.Syntax.Build

/-!
# Trees on lines

A tree that was made without a text gets a line for its package, for each declaration and for what
a declaration holds. Lines are opened in the order of the tree and the last line is never left, so
as long as there are enough lines no two of these share one.
-/

namespace DomainLang.Syntax

namespace Cursor

theorem toNat_following {line : UInt16} (room : line.toNat < 65535) :
    (following line).toNat = line.toNat + 1 := by
  have apart : line ≠ 65535 := by
    rintro rfl
    exact absurd room (by decide)
  rw [following, if_neg apart, UInt16.toNat_add, UInt16.toNat_one]
  omega

end Cursor

namespace Numbering

/-- The lines that are opened one after the other are consecutive. -/
theorem startLines_placed (fileId line : UInt16) (spans : List Span)
    (room : line.toNat + spans.length ≤ 65535) :
    (placed (.lines fileId) line spans).map (·.startLine.toNat) =
      List.range' (line.toNat + 1) spans.length := by
  induction spans generalizing line with
  | nil => rfl
  | cons span rest ih =>
    rw [List.length_cons] at room
    have next : (Cursor.following line).toNat = line.toNat + 1 :=
      Cursor.toNat_following (by omega)
    rw [placed, List.map_cons, ih _ (by omega), next, List.length_cons, List.range'_succ]
    exact congrArg (· :: _) next

theorem toNat_opened (line : UInt16) (spans : List Span)
    (room : line.toNat + spans.length ≤ 65535) :
    (opened line spans).toNat = line.toNat + spans.length := by
  induction spans generalizing line with
  | nil => rfl
  | cons span rest ih =>
    rw [List.length_cons] at room
    have next : (Cursor.following line).toNat = line.toNat + 1 :=
      Cursor.toNat_following (by omega)
    rw [opened, ih _ (by omega), next, List.length_cons]
    omega

end Numbering

namespace SourceTree

/-- Numbering with lines opens one for each span that has a line of its own, and as long as there
are enough of them these spans are on the lines 1, 2, 3, … in order. No span says more than its
file and its line. -/
theorem onLines_increasing (fileId : UInt16) (tree : SourceTree)
    (small : tree.lineSpans.length ≤ 65535) :
    ((Numbering.tree (.lines fileId) tree).leaves {}).line.toNat = tree.lineSpans.length ∧
      (tree.onLines fileId).lineSpans.map (·.startLine.toNat) =
        List.range' 1 tree.lineSpans.length ∧
      ((tree.onLines fileId).lineSpans.map Span.startLine).Pairwise (· < ·) ∧
      ∀ span ∈ (tree.onLines fileId).spans,
        span.fileId = fileId ∧ span.start = 0 ∧ span.stop = 0 := by
  obtain ⟨⟨-, -, -, made, line, spans⟩, -⟩ := Numbering.numbers_tree (.lines fileId) {} tree
  have room : (0 : UInt16).toNat + tree.lineSpans.length ≤ 65535 := by
    simpa using small
  have lines : (tree.onLines fileId).lineSpans.map (·.startLine.toNat) =
      List.range' 1 tree.lineSpans.length :=
    (congrArg (List.map _) spans).trans (Numbering.startLines_placed fileId 0 _ room)
  refine ⟨?_, lines, ?_, ?_⟩
  · rw [line, Numbering.toNat_opened _ _ room]
    exact Nat.zero_add _
  · have increasing := List.pairwise_lt_range' (s := 1) (n := tree.lineSpans.length)
    rw [← lines, List.pairwise_map] at increasing
    exact List.pairwise_map.mpr (increasing.imp UInt16.lt_iff_toNat_lt.mpr)
  · intro span member
    obtain ⟨line, original, rfl⟩ := made span member
    exact ⟨rfl, rfl, rfl⟩

/-- A file in which a projection and a service nest. -/
def gallery : SourceTree where
  package := { toNode := .bare, name := "art" }
  elements :=
    [.projection {
      toNode := .bare, name := .bare "Card", classifier := .bare "Work"
      children := [.reference .bare (.bare "artist") [.property .bare (.bare "name") "Name"]] },
    .serviceGroup {
      toNode := .bare, name := .bare "WorkService", target := .bare "Work"
      urls := [{
        toNode := .bare, path := [.constant (.bare "work")], queryParameters := []
        services := [{
          toNode := .bare, verb := .get, multiplicity := .many
          clauses := [.bare .criteria .everything], projection := some (.bare "Card")
          orderBy := some (.ofPaths [("name", .ascending)]) }] }] }]

theorem onLines_increasing_gallery :
    gallery.lineSpans.length = 10 ∧
      (gallery.onLines 7).lineSpans.map (·.startLine.toNat) = List.range' 1 10 :=
  ⟨rfl, (onLines_increasing 7 gallery (by decide)).2.1⟩

end SourceTree
end DomainLang.Syntax
