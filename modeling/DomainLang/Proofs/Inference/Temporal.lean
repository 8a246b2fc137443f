import DomainLang.Proofs.Expansion
import DomainLang.Proofs.Sources

/-!
# Inferred properties

The inference of temporal properties adds fragments to the units and their properties to
classifiers. Each fragment expands one classifier and holds properties of primitive types
only, so that no name is left to resolve.
-/

namespace DomainLang

open Resolved

variable {program : Program} {classifier : ClassifierIndex}

namespace Temporal

/-- An inferred property stands nowhere. -/
theorem stripped_propertyFor (family : Modifier) (part : TemporalPart) :
    (propertyFor family part).stripped = propertyFor family part := by
  cases part <;> rfl

/-- There are two families to ask for. -/
theorem requestedFamilies_subset (classifier : Classifier) :
    requestedFamilies classifier ⊆ [.valid, .system] := by
  intro family member
  obtain ⟨mark, -, asked⟩ := List.mem_flatMap.mp (mem_of_mem_keepFirst member)
  cases modifier : mark.modifier <;> simp_all [familiesOf]

theorem mem_missingMembers {member : Syntax.Member}
    (missing : member ∈ missingMembers program classifier) :
    ∃ family ∈ [Modifier.valid, .system], ∃ part, member = .property (propertyFor family part) := by
  simp only [missingMembers, List.mem_flatMap, List.mem_map] at missing
  obtain ⟨family, requested, part, -, rfl⟩ := missing
  exact ⟨family, requestedFamilies_subset _ requested, part, rfl⟩

/-- Only a classifier that has a record can ask for something. -/
theorem holds_of_missingMembers (missing : missingMembers program classifier ≠ []) :
    program.HoldsClassifier classifier := by
  by_contra absent
  apply missing
  rw [missingMembers, Program.classifier_of_not_holds absent]
  rfl

theorem length_requestedFamilies (classifier : Classifier) :
    (requestedFamilies classifier).length ≤ 2 := by
  have distinct : (requestedFamilies classifier).Nodup := by
    have keys := nodup_keys_keepFirst id (classifier.modifiers.flatMap fun mark =>
      familiesOf mark.modifier)
    rwa [List.map_id] at keys
  simpa using (List.subperm_of_subset distinct (requestedFamilies_subset classifier)).length_le

/-- A fragment is small. -/
theorem length_nodes_missingMembers (program : Program) (classifier : ClassifierIndex) :
    ((missingMembers program classifier).flatMap Syntax.Member.nodes).length ≤ UInt32.size := by
  have ofPart (family : Modifier) (part : TemporalPart) :
      (Syntax.Member.nodes (.property (propertyFor family part))).length ≤ 3 := by
    cases part <;> exact Nat.le_refl 3
  have ofFamily (family : Modifier) (parts : List TemporalPart) (few : parts.length ≤ 3) :
      ((parts.map fun part => .property (propertyFor family part)).flatMap
        Syntax.Member.nodes).length ≤ 9 := by
    rw [List.flatMap_map]
    exact (length_flatMap_le fun part _ => ofPart family part).trans (Nat.mul_le_mul_right 3 few)
  rw [missingMembers, List.flatMap_assoc]
  calc _ ≤ (requestedFamilies (program.classifier classifier)).length * 9 :=
        length_flatMap_le fun family _ => ofFamily family _ (List.length_filter_le ..)
    _ ≤ 2 * 9 := Nat.mul_le_mul_right 9 (length_requestedFamilies _)
    _ ≤ UInt32.size := by decide

end Temporal

namespace CompilationUnit

/-- The contexts of the members that a fragment adds. -/
def fragmentKeys (unit : CompilationUnit) : List ContextKey :=
  match unit.body with
  | .members _ members => members.map fun member => unit.context member.id
  | .tree _ | .clauses _ _ => []

/-- The properties that a fragment adds. -/
def fragmentProperties (unit : CompilationUnit) : List Property :=
  match unit.body with
  | .members owner members =>
    members.filterMap (Property.ofMember? unit owner (some .temporalProperties))
  | .tree _ | .clauses _ _ => []

theorem exists_of_mem_fragmentProperties {fragment : CompilationUnit} {property : Property}
    (member : property ∈ fragment.fragmentProperties) :
    ∃ owner members declaration, fragment.body = .members owner members ∧
      .property declaration ∈ members ∧
      property = { owner, declaration, context := fragment.context declaration.id
                   inferred := some .temporalProperties } := by
  rw [fragmentProperties] at member
  split at member
  · next owner members body =>
    obtain ⟨declared, among, made⟩ := List.mem_filterMap.mp member
    cases declared with
    | endSignature signature => cases made
    | property declaration =>
      cases made
      exact ⟨owner, members, declaration, body, among, rfl⟩
  · cases member
  · cases member

end CompilationUnit

/-- A fragment holds temporal properties of a classifier and stands where the classifier
does. -/
def Program.TemporalFragment (program : Program) (fragment : CompilationUnit) : Prop :=
  ∃ owner members, fragment.body = .members owner members ∧
    program.HoldsClassifier owner ∧
    fragment.expansion = some ⟨(program.classifier owner).header.context.unit,
      .temporalProperties, (program.classifier owner).header.context⟩ ∧
    (∀ member ∈ members, ∃ family ∈ [Modifier.valid, .system], ∃ part,
      member.stripped = .property (Temporal.propertyFor family part)) ∧
    ∀ span ∈ members.flatMap Syntax.Member.spans,
      span = (program.classifier owner).header.span

namespace Workspace

/-- Fragments with temporal properties were added. -/
structure InfersProperties (fragments : List CompilationUnit) (before after : Workspace) :
    Prop where
  units : after.units = before.units ++ fragments
  adds : { before with units := after.units }.AddsMembers
    (fragments.flatMap CompilationUnit.fragmentKeys)
    (fragments.flatMap CompilationUnit.fragmentProperties) [] after
  each : ∀ fragment ∈ fragments, before.program.TemporalFragment fragment
  distinct : (before.units.map (·.id)).Nodup → (after.units.map (·.id)).Nodup

namespace InfersProperties

variable {fragments more : List CompilationUnit} {before middle after : Workspace}

theorem refl (workspace : Workspace) : InfersProperties [] workspace workspace :=
  ⟨by simp, .refl workspace, by simp, id⟩

theorem trans (first : InfersProperties fragments before middle)
    (second : InfersProperties more middle after) :
    InfersProperties (fragments ++ more) before after where
  units := by rw [second.units, first.units, List.append_assoc]
  adds := by
    have moved := first.adds.relocate after.units middle.walk middle.expansionDepth
    have same : ({ before with
        units := after.units
        walk := middle.walk
        expansionDepth := middle.expansionDepth } : Workspace) =
        { before with units := after.units } := by
      rw [first.adds.surroundings]
    simpa using (same ▸ moved).trans second.adds
  each := by
    intro fragment member
    rcases List.mem_append.mp member with early | late
    · exact first.each fragment early
    · obtain ⟨owner, members, body, holds, expansion, made, placed⟩ := second.each fragment late
      have held := first.adds.classifiers.holdsClassifier_iff.mp holds
      rw [first.adds.keeps.classifierHeader_eq held] at expansion placed
      exact ⟨owner, members, body, held, expansion, made, placed⟩
  distinct := second.distinct ∘ first.distinct

/-- What expansions refer to stays there. -/
theorem expandable (infers : InfersProperties fragments before after)
    (expandable : before.Expandable) : after.Expandable := by
  have known {id : UnitId} (has : before.HasUnit id) : after.HasUnit id := by
    obtain ⟨unit, member, same⟩ := has
    exact ⟨unit, by simp [infers.units, member], same⟩
  constructor
  case shallow =>
    rw [infers.adds.surroundings]
    exact expandable.shallow
  case contexts =>
    intro key registered
    rw [infers.adds.keys_eq, List.mem_append, List.mem_reverse, List.mem_flatMap] at registered
    rcases registered with ⟨fragment, member, added⟩ | old
    · refine ⟨fragment, by simp [infers.units, member], ?_⟩
      obtain ⟨owner, members, body, -⟩ := infers.each fragment member
      rw [CompilationUnit.fragmentKeys, body] at added
      obtain ⟨_, _, rfl⟩ := List.mem_map.mp added
      rfl
    · exact known (expandable.contexts key old)
  case classifiers =>
    intro classifier holds
    have held := infers.adds.classifiers.holdsClassifier_iff.mp holds
    rw [infers.adds.keeps.classifierHeader_eq held]
    exact known (expandable.classifiers classifier held)
  case services =>
    rw [infers.adds.others]
    exact fun service holds => known (expandable.services service holds)

end InfersProperties
end Workspace

namespace Phase

variable {before after : Workspace}

/-- The members of a fragment, with ids. -/
def fragmentMembers (program : Program) (classifier : ClassifierIndex) : List Syntax.Member :=
  Syntax.Numbering.output (Syntax.Numbering.members
    (.anchor (program.classifier classifier).header.span)
    (Temporal.missingMembers program classifier)) {}

theorem mem_fragmentMembers {member : Syntax.Member}
    (missing : member ∈ fragmentMembers program classifier) :
    ∃ family ∈ [Modifier.valid, .system], ∃ part,
      member.stripped = .property (Temporal.propertyFor family part) := by
  have stripped := List.mem_map_of_mem (f := Syntax.Member.stripped) missing
  rw [fragmentMembers, (Syntax.Numbering.numbers_members ..).words, List.mem_map] at stripped
  obtain ⟨original, asked, same⟩ := stripped
  obtain ⟨family, known, part, rfl⟩ := Temporal.mem_missingMembers asked
  exact ⟨family, known, part, same.symm.trans
    (congrArg Syntax.Member.property (Temporal.stripped_propertyFor family part))⟩

/-- The members of a fragment stand where the classifier does. -/
theorem spans_fragmentMembers {span : Span}
    (member : span ∈ (fragmentMembers program classifier).flatMap Syntax.Member.spans) :
    span = (program.classifier classifier).header.span := by
  have moved : (fragmentMembers program classifier).flatMap Syntax.Member.spans = _ :=
    (Syntax.Numbering.numbers_members ..).moved fun _ => rfl
  rw [moved] at member
  obtain ⟨original, -, rfl⟩ := List.mem_map.mp member
  rfl

/-- A member that is a property when stripped is one. -/
theorem noSignatures_of_stripped {unit : CompilationUnit} {owner : ClassifierIndex}
    {members : List Syntax.Member}
    (each : ∀ member ∈ members, ∃ property, member.stripped = .property property) :
    members.filterMap (EndSignature.ofMember? unit owner) = [] := by
  rw [List.filterMap_eq_nil_iff]
  intro member among
  obtain ⟨property, same⟩ := each member among
  cases member with
  | property declaration => rfl
  | endSignature signature => cases same

/-- The fragment that expands a classifier. -/
def temporalFragment (workspace : Workspace) (parent : CompilationUnit)
    (classifier : ClassifierIndex) : CompilationUnit :=
  workspace.fragment parent .temporalProperties
    (workspace.program.classifier classifier).header.context
    (workspace.program.classifier classifier).header.span
    (.members classifier (Temporal.missingMembers workspace.program classifier))

/-- Merging a fragment adds its properties. -/
theorem returns_mergeFragment (parent : CompilationUnit) {fragment : CompilationUnit}
    (made : fragment = temporalFragment before parent classifier)
    (holds : before.program.HoldsClassifier classifier)
    (returns : (mergeFragment fragment .temporalProperties).Returns (before.inside fragment) ()
      after) :
    (before.inside fragment).AddsMembers fragment.fragmentKeys fragment.fragmentProperties []
      after := by
  subst made
  obtain ⟨inner, declared, rfl⟩ := returns.inFrame fun inner declared =>
    (addsMembers_declareMembers declared holds).walk_eq
  have adds := (addsMembers_declareMembers declared holds).rewalk
    (before.inside (temporalFragment before parent classifier)).walk
  rw [noSignatures_of_stripped fun member among => by
    obtain ⟨family, -, part, same⟩ := mem_fragmentMembers among
    exact ⟨_, same⟩] at adds
  exact adds

/-- Expanding one classifier does nothing or adds one fragment. -/
theorem cases_inferTemporalPropertiesOf
    (returns : (inferTemporalPropertiesOf classifier).Returns before () after) :
    Temporal.missingMembers before.program classifier = [] ∧ after = before ∨
      ∃ parent, before.InfersProperties [temporalFragment before parent classifier] after := by
  simp only [inferTemporalPropertiesOf, returns_get_bind] at returns
  split at returns
  · next none =>
    obtain ⟨-, rfl⟩ := returns_pure.mp returns
    exact .inl ⟨none, rfl⟩
  · next missing =>
    have holds : before.program.HoldsClassifier classifier :=
      Temporal.holds_of_missingMembers fun none => by simp [none] at missing
    obtain ⟨parent, inner, found, merged, rfl⟩ := returns_expandDeclaration
      (fun parent inner merged =>
        (returns_mergeFragment parent rfl holds merged).sameWalk) returns
    have adds := returns_mergeFragment parent rfl holds merged
    have moved := adds.relocate (before.units ++ [temporalFragment before parent classifier])
      before.walk before.expansionDepth
    have units : inner.units = before.units := adds.units_eq
    have parentId : parent.id = (before.program.classifier classifier).header.context.unit :=
      (Workspace.unit?_eq_some found).2
    refine .inr ⟨parent, ?_, ?_, ?_, ?_⟩
    · rw [units]
      rfl
    · rw [units, List.flatMap_singleton, List.flatMap_singleton]
      exact moved
    · rintro fragment member
      rw [List.mem_singleton] at member
      subst member
      refine ⟨classifier, _, rfl, holds, ?_, fun member => mem_fragmentMembers,
        fun span => spans_fragmentMembers⟩
      rw [← parentId]
      rfl
    · intro distinct
      rw [units]
      exact Workspace.nodup_ids_concat distinct rfl

theorem returns_inferTemporalPropertiesOf
    (returns : (inferTemporalPropertiesOf classifier).Returns before () after) :
    ∃ fragments, before.InfersProperties fragments after := by
  rcases cases_inferTemporalPropertiesOf returns with ⟨-, rfl⟩ | ⟨parent, infers⟩
  · exact ⟨[], .refl _⟩
  · exact ⟨_, infers⟩

/-- Expanding classifiers one after the other. -/
theorem returns_inferTemporalProperties
    (returns : inferTemporalProperties.Returns before () after) :
    ∃ fragments, before.InfersProperties fragments after := by
  simp only [inferTemporalProperties, returns_get_bind] at returns
  apply returns.forM_induction fun _ current =>
    ∃ fragments, before.InfersProperties fragments current
  · exact ⟨[], .refl before⟩
  · rintro _ classifier _ current following _ ⟨fragments, infers⟩ step
    obtain ⟨more, further⟩ := returns_inferTemporalPropertiesOf step
    exact ⟨fragments ++ more, infers.trans further⟩

theorem nodup_ids_fragmentMembers (program : Program) (classifier : ClassifierIndex) :
    ((fragmentMembers program classifier).map Syntax.Member.id).Nodup := by
  have ids := (Syntax.Numbering.numbers_members
    (.anchor (program.classifier classifier).header.span) {}
    (Temporal.missingMembers program classifier)).ids
  have distinct := Syntax.Numbering.nodup_idsFrom 1 _
    (Temporal.length_nodes_missingMembers program classifier)
  rw [← ids] at distinct
  exact distinct.sublist (Syntax.Member.ids_sublist _)

theorem succeeds_inferTemporalPropertiesOf (expandable : before.Expandable) :
    (inferTemporalPropertiesOf classifier).Succeeds before := by
  simp only [inferTemporalPropertiesOf, succeeds_get_bind]
  split
  · exact succeeds_pure ..
  · next missing =>
    have holds : before.program.HoldsClassifier classifier :=
      Temporal.holds_of_missingMembers fun none => by simp [none] at missing
    obtain ⟨parent, found⟩ := Workspace.exists_unit (expandable.classifiers classifier holds)
    apply succeeds_expandDeclaration found expandable.shallow
    · have fresh := expandable.fresh (nodup_ids_fragmentMembers before.program classifier)
      rw [List.map_map] at fresh
      apply succeeds_inFrame
      · simp [Workspace.inside, Frame.kind]
      · exact succeeds_declareMembers holds fresh
      · intro _ inner declared
        exact (addsMembers_declareMembers declared holds).walk_eq
    · intro inner merged
      exact (returns_mergeFragment parent rfl holds merged).sameWalk

/-- Properties can be inferred when all units are there. -/
theorem succeeds_inferTemporalProperties (expandable : before.Expandable) :
    inferTemporalProperties.Succeeds before := by
  simp only [inferTemporalProperties, succeeds_get_bind]
  apply succeeds_forM (fun _ current => current.Expandable) expandable
  · intro _ classifier _ current _ stillExpandable
    exact succeeds_inferTemporalPropertiesOf stillExpandable
  · intro _ classifier _ current following _ stillExpandable step
    obtain ⟨fragments, infers⟩ := returns_inferTemporalPropertiesOf step
    exact infers.expandable stillExpandable

end Phase
end DomainLang
