import DomainLang.Proofs.Compilation
import DomainLang.Proofs.Inference.Flawless

/-!
# Inferring temporal properties again

Whether a part of a family is present is decided by modifiers, and which properties are visible
is decided by names. An added property can therefore hide one that was found present, or be
hidden itself, and then its part is missing again. `Program.Obscures` says that this has happened.
It is the only way in which a second inference can find something to add: a part that is asked
for is provided when its classifier is visited and stays so, unless its name clashes with that of
an inferred property, and a clash is never undone. It does happen: `Sample.periods` reports nothing, and a second
inference changes it.
-/

namespace DomainLang

open Resolved

variable {declaration : Syntax.Property}

/-- The modifiers of the classifier ask for a family. -/
def Resolved.Classifier.Requests (classifier : Classifier) : Modifier → Prop
  | .valid => hasModifier classifier.modifiers .validTemporal ∨
      hasModifier classifier.modifiers .bitemporal
  | .system => hasModifier classifier.modifiers .systemTemporal ∨
      hasModifier classifier.modifiers .bitemporal
  | _ => False

/-- The modifiers of a property make it a part of a family. -/
def Resolved.Property.IsFor (property : Property) (family : Modifier) (part : TemporalPart) :
    Prop :=
  property.temporalFamily? = some family ∧ property.temporalPart? = some part

/-- A classifier declares or inherits a property, which may be hidden by a nearer one. -/
def Program.Sees (program : Program) (classifier : ClassifierIndex) (property : Property) : Prop :=
  property ∈ program.properties.records ∧ property.owner ∈ program.propertySources classifier

namespace Program

/-- A visible property of the classifier is for a part of a family. -/
def Provides (program : Program) (classifier : ClassifierIndex) (family : Modifier)
    (part : TemporalPart) : Prop :=
  ∃ index ∈ program.allProperties classifier,
    (program.properties.get index).IsFor family part

/-- The classifier sees a property for a part of a family and, under the same name, one that is
not for it. One of the two is inferred. -/
def Clashes (program : Program) (classifier : ClassifierIndex) (family : Modifier)
    (part : TemporalPart) : Prop :=
  ∃ hidden hider, program.Sees classifier hidden ∧ program.Sees classifier hider ∧
    hidden.IsFor family part ∧ ¬ hider.IsFor family part ∧
    hider.name.name = hidden.name.name ∧ (hidden.inferred.isSome ∨ hider.inferred.isSome)

/-- The classifier asks for a part of a family and no visible property is for it, because of a
name that clashes. -/
structure Obscures (program : Program) (classifier : ClassifierIndex) (family : Modifier)
    (part : TemporalPart) : Prop where
  requests : (program.classifier classifier).Requests family
  absent : ¬ program.Provides classifier family part
  clashes : program.Clashes classifier family part

theorem isPresent_iff {program : Program} {classifier : ClassifierIndex} {family : Modifier}
    {part : TemporalPart} :
    Temporal.isPresent program classifier family part = true ↔
      program.Provides classifier family part := by
  simp only [Temporal.isPresent, List.any_eq_true, Bool.and_eq_true, decide_eq_true_eq]
  rfl

end Program

/-- A classifier sees its own properties. -/
theorem Program.mem_propertySources_self (program : Program) (classifier : ClassifierIndex) :
    classifier ∈ program.propertySources classifier := by
  cases classifier <;> exact List.mem_append_left _ List.mem_cons_self

namespace Temporal

theorem isPart_iff {family : Modifier} {part : TemporalPart} {property : Property} :
    isPart family part property.declaration.stripped = true ↔ property.IsFor family part := by
  rw [isPart_stripped, Bool.and_eq_true, decide_eq_true_eq, decide_eq_true_eq]
  rfl

/-- A property is missing when nothing is present for its part. -/
theorem mem_missingFrom {families : List Modifier} {present : List Syntax.Property} :
    declaration ∈ missingFrom families present ↔ ∃ family ∈ families, ∃ part,
      present.any (isPart family part) = false ∧ declaration = propertyFor family part := by
  have every (part : TemporalPart) : part ∈ TemporalPart.all := by cases part <;> decide
  simp only [missingFrom, List.mem_flatMap, List.mem_map, List.mem_filter, every, true_and,
    Bool.not_eq_true', @eq_comm _ declaration]

theorem mem_requestedFamilies {classifier : Classifier} {family : Modifier} :
    family ∈ requestedFamilies classifier ↔ classifier.Requests family := by
  have asks : family ∈ requestedFamilies classifier ↔
      ∃ modifier, hasModifier classifier.modifiers modifier ∧ family ∈ familiesOf modifier := by
    simp only [requestedFamilies, mem_keepFirst_id, List.mem_flatMap, hasModifier,
      List.any_eq_true, decide_eq_true_eq]
    grind
  rw [asks]
  constructor
  · rintro ⟨modifier, has, asked⟩
    rw [familiesOf.eq_def] at asked
    split at asked
    · exact List.mem_singleton.mp asked ▸ .inl has
    · exact List.mem_singleton.mp asked ▸ .inl has
    · rcases List.mem_pair.mp asked with rfl | rfl <;> exact .inr has
    · cases asked
  · intro requests
    rw [Classifier.Requests.eq_def] at requests
    split at requests
    · rcases requests with has | has <;> exact ⟨_, has, by decide⟩
    · rcases requests with has | has <;> exact ⟨_, has, by decide⟩
    · exact requests.elim

/-- Nothing is missing exactly when every part that is asked for is provided. -/
theorem missingMembers_eq_nil_iff {program : Program} {classifier : ClassifierIndex} :
    missingMembers program classifier = [] ↔
      ∀ family, (program.classifier classifier).Requests family →
        ∀ part, program.Provides classifier family part := by
  have every (part : TemporalPart) : part ∈ TemporalPart.all := by cases part <;> decide
  simp only [missingMembers, List.flatMap_eq_nil_iff, List.map_eq_nil_iff, List.filter_eq_nil_iff,
    Bool.not_eq_true', Bool.not_eq_false, Program.isPresent_iff, mem_requestedFamilies, every,
    true_imp_iff]

/-- When the list of one source grows, what is visible stays so or is hidden by an added
property. -/
theorem visible_gain {own grown : ClassifierIndex → List Syntax.Property} {target : ClassifierIndex}
    {added : List Syntax.Property}
    (gains : ∀ source, grown source = own source ++ if source = target then added else [])
    {sources : List ClassifierIndex} (member : declaration ∈ visible sources own) :
    declaration ∈ visible sources grown ∨ target ∈ sources ∧ ∃ hider ∈ added,
      hider.name.name = declaration.name.name ∧ hider ∈ visible sources grown := by
  have first := mem_keepFirst_iff.mp member
  rcases find?_flatMap_gain gains sources
    fun other => other.name.name = declaration.name.name with same | ⟨seen, hider, isAdded, found⟩
  · exact .inl (mem_keepFirst_iff.mpr (same.trans first))
  · have named : hider.name.name = declaration.name.name := by simpa using List.find?_some found
    refine .inr ⟨seen, hider, isAdded, named, mem_keepFirst_iff.mpr ?_⟩
    rw [named]
    exact found

/-- A part is provided exactly when a visible declaration is for it. -/
theorem provides_iff {program : Program} {classifier : ClassifierIndex} {family : Modifier}
    {part : TemporalPart} : program.Provides classifier family part ↔
      ∃ declaration ∈ visible (program.propertySources classifier) program.ownProperties,
        isPart family part declaration = true := by
  simp only [visible_propertySources, List.mem_map, exists_exists_and_eq_and, isPart_iff,
    Program.Provides]

theorem isPart_propertyFor {family : Modifier} (known : family ∈ [Modifier.valid, .system])
    (part : TemporalPart) : isPart family part (propertyFor family part) = true := by
  rcases List.mem_pair.mp known with rfl | rfl <;> cases part <;> decide

end Temporal

/-- The properties of a classifier are those of the records that name it. -/
theorem Program.Coherent.mem_ownProperties {program : Program}
    (coherent : program.Coherent none none) {classifier : ClassifierIndex} :
    declaration ∈ program.ownProperties classifier ↔ ∃ property ∈ program.properties.records,
      property.owner = classifier ∧ property.declaration.stripped = declaration := by
  simp only [coherent.ownProperties_eq, List.mem_map, List.mem_filter, decide_eq_true_eq,
    and_assoc]

/-- Every property that counts for a classifier is that of a record which the classifier sees. -/
theorem Program.Coherent.exists_sees {program : Program} (coherent : program.Coherent none none)
    {classifier : ClassifierIndex}
    (member : declaration ∈ (program.propertySources classifier).flatMap program.ownProperties) :
    ∃ property, program.Sees classifier property ∧ property.declaration.stripped = declaration := by
  obtain ⟨source, isSource, own⟩ := List.mem_flatMap.mp member
  obtain ⟨property, among, rfl, rfl⟩ := coherent.mem_ownProperties.mp own
  exact ⟨property, ⟨among, isSource⟩, rfl⟩

/-- Some visible property has the name of one that is seen. -/
theorem Program.Coherent.exists_visible_of_sees {program : Program}
    (coherent : program.Coherent none none) {classifier : ClassifierIndex} {property : Property}
    (sees : program.Sees classifier property) :
    ∃ declaration ∈ Temporal.visible (program.propertySources classifier) program.ownProperties,
      declaration.name.name = property.name.name := by
  have own : property.declaration.stripped ∈
      (program.propertySources classifier).flatMap program.ownProperties :=
    List.mem_flatMap.mpr
      ⟨property.owner, sees.2, coherent.mem_ownProperties.mpr ⟨property, sees.1, rfl, rfl⟩⟩
  obtain ⟨first, found⟩ : ∃ first, ((program.propertySources classifier).flatMap
      program.ownProperties).find? (fun other => other.name.name = property.name.name) =
        some first :=
    Option.isSome_iff_exists.mp (List.find?_isSome.mpr ⟨_, own, decide_eq_true rfl⟩)
  have named : first.name.name = property.name.name := by simpa using List.find?_some found
  refine ⟨first, ?_, named⟩
  rw [Temporal.visible, mem_keepFirst_iff, named]
  exact found

namespace Phase

open Temporal

namespace Completes

variable {visited : ClassifierIndex} {added : List Property} {before after : Program}
  (completes : Completes visited added before after)
include completes

/-- A visit asks for nothing new. -/
theorem requests_iff {classifier : ClassifierIndex} {family : Modifier} :
    (after.classifier classifier).Requests family ↔
      (before.classifier classifier).Requests family := by
  rw [← mem_requestedFamilies, ← mem_requestedFamilies,
    requestedFamilies_congr (congrArg _ (completes.same.modifiers_eq classifier))]

/-- What is seen stays so. -/
theorem sees_after {classifier : ClassifierIndex} {property : Property}
    (sees : before.Sees classifier property) : after.Sees classifier property := by
  refine ⟨?_, completes.same.propertySources_eq ▸ sees.2⟩
  rw [completes.records]
  exact List.mem_append_left _ sees.1

variable {classifier : ClassifierIndex} {family : Modifier} {part : TemporalPart}

/-- What is added is seen wherever the visited classifier counts. -/
theorem sees_added {property : Property} (among : property ∈ added)
    (isSource : visited ∈ after.propertySources classifier) : after.Sees classifier property := by
  refine ⟨?_, (completes.each property among).1 ▸ isSource⟩
  rw [completes.records]
  exact List.mem_append_right _ among

/-- A part that is provided stays so, or a name clashes with one that was added. -/
theorem provides_or_clashes (provides : before.Provides classifier family part) :
    after.Provides classifier family part ∨ after.Clashes classifier family part := by
  obtain ⟨declaration, inSight, isFor⟩ := provides_iff.mp provides
  obtain ⟨hidden, seesHidden, rfl⟩ :=
    completes.wasCoherent.exists_sees (mem_of_mem_keepFirst inSight)
  rw [← completes.same.propertySources_eq] at inSight
  rcases visible_gain completes.ownProperties_eq inSight with
    still | ⟨isSource, _, isAdded, named, hides⟩
  · exact .inl (provides_iff.mpr ⟨_, still, isFor⟩)
  · obtain ⟨hider, among, rfl⟩ := List.mem_map.mp isAdded
    have inferred := (completes.each hider among).2
    by_cases isForToo : hider.IsFor family part
    · exact .inl (provides_iff.mpr ⟨_, hides, isPart_iff.mpr isForToo⟩)
    · exact .inr ⟨hidden, hider, completes.sees_after seesHidden,
        completes.sees_added among isSource, isPart_iff.mp isFor, isForToo, named,
        .inr (by rw [inferred]; rfl)⟩

/-- Each part that the visited classifier asks for is provided, or a name clashes: the property
that was added for it may be hidden. -/
theorem provides_or_clashes_visited (requests : (before.classifier visited).Requests family) :
    after.Provides visited family part ∨ after.Clashes visited family part := by
  by_cases provides : before.Provides visited family part
  · exact completes.provides_or_clashes provides
  · have requested := mem_requestedFamilies.mpr requests
    have isAdded : propertyFor family part ∈ added.map (·.declaration.stripped) := by
      rw [completes.missing, mem_missingFrom]
      refine ⟨family, requested, part, List.any_eq_false.mpr ?_, rfl⟩
      exact fun declaration inSight isFor => provides (provides_iff.mpr ⟨_, inSight, isFor⟩)
    obtain ⟨property, among, same⟩ := List.mem_map.mp isAdded
    have inferred := (completes.each property among).2
    have sees := completes.sees_added among (after.mem_propertySources_self visited)
    have isFor : property.IsFor family part := by
      rw [← isPart_iff, same]
      exact isPart_propertyFor (requestedFamilies_subset _ requested) part
    obtain ⟨first, inSight, named⟩ := completes.coherent.exists_visible_of_sees sees
    obtain ⟨hider, seesHider, rfl⟩ := completes.coherent.exists_sees (mem_of_mem_keepFirst inSight)
    by_cases isForToo : hider.IsFor family part
    · exact .inl (provides_iff.mpr ⟨_, inSight, isPart_iff.mpr isForToo⟩)
    · exact .inr ⟨property, hider, sees, seesHider, isFor, isForToo, named,
        .inl (by rw [inferred]; rfl)⟩

/-- A name that clashes does so after every later visit. -/
theorem clashes_after (clashes : before.Clashes classifier family part) :
    after.Clashes classifier family part := by
  obtain ⟨hidden, hider, seesHidden, seesHider, rest⟩ := clashes
  exact ⟨hidden, hider, completes.sees_after seesHidden, completes.sees_after seesHider, rest⟩

end Completes

variable {before after : Workspace}

/-- Whatever a classifier that was visited asks for is provided, or a name clashes. -/
theorem provides_or_clashes_inferTemporalProperties
    (coherent : before.program.Coherent none none)
    (returns : inferTemporalProperties.Returns before () after) :
    ∀ classifier ∈ before.program.inheritanceOrder, ∀ family,
      (after.program.classifier classifier).Requests family → ∀ part,
        after.program.Provides classifier family part ∨
          after.program.Clashes classifier family part := by
  simp only [inferTemporalProperties, returns_get_bind] at returns
  refine (returns.forM_induction (fun visited current => current.program.Coherent none none ∧
    ∀ classifier ∈ visited, ∀ family, (current.program.classifier classifier).Requests family →
      ∀ part, current.program.Provides classifier family part ∨
        current.program.Clashes classifier family part)
    ⟨coherent, by simp⟩ ?_).2
  rintro visited classifier rest current following - ⟨coherent, settled⟩ step
  obtain ⟨added, completes⟩ := completes_inferTemporalPropertiesOf coherent step
  refine ⟨completes.coherent, fun other member family requests part => ?_⟩
  rw [completes.requests_iff] at requests
  rcases List.mem_append.mp member with earlier | last
  · rcases settled other earlier family requests part with provides | clashes
    · exact completes.provides_or_clashes provides
    · exact .inr (completes.clashes_after clashes)
  · obtain rfl := List.mem_singleton.mp last
    exact completes.provides_or_clashes_visited requests

/-- After an analysis whatever a classifier asks for is provided, or a name clashes. -/
theorem Stages.provides_or_clashes {options : Options} {units : List CompilationUnit}
    {recorded : List RecordedDeclaration} {fragments : List CompilationUnit}
    {start inferred served : Workspace}
    (stages : Stages options units recorded fragments start inferred served)
    (wanted : options.temporalProperties = true) {classifier : ClassifierIndex} {family : Modifier}
    (requests : (served.linkReferences.program.classifier classifier).Requests family)
    (part : TemporalPart) :
    served.linkReferences.program.Provides classifier family part ∨
      served.linkReferences.program.Clashes classifier family part := by
  have temporal := returns_optionally.mp stages.temporal
  rw [stages.options_eq, if_pos wanted] at temporal
  have holds : start.program.HoldsClassifier classifier := by
    rw [← stages.sameClassifiers.holdsClassifier_iff]
    by_contra absent
    rw [Program.classifier_of_not_holds absent, ← mem_requestedFamilies] at requests
    cases requests
  have visits := start.program.inheritanceOrder_parentsFirst.1 (Program.mem_classifiers.mpr holds)
  have settled := provides_or_clashes_inferTemporalProperties stages.linked.coherent temporal
    classifier visits family
  -- Looking up names in references leaves alone what this depends on.
  obtain ⟨interfaces, classes, properties⟩ := stages.classifiers_linkReferences
  generalize served.linkReferences.program = last at interfaces classes properties requests ⊢
  generalize inferred.program = before at interfaces classes properties settled
  cases last
  cases before
  simp only at interfaces classes properties
  subst interfaces classes properties
  exact settled requests part

/-- An inference that changes nothing finds nothing missing: a classifier that lacks something
is given a fragment. -/
theorem missingMembers_of_idle {workspace : Workspace}
    (idle : inferTemporalProperties.Returns workspace () workspace)
    (classifier : ClassifierIndex) : missingMembers workspace.program classifier = [] := by
  by_contra missing
  have visits := workspace.program.inheritanceOrder_parentsFirst.1
    (Program.mem_classifiers.mpr (holds_of_missingMembers missing))
  simp only [inferTemporalProperties, returns_get_bind] at idle
  -- While there are no more units than at first, all is as it was at first.
  obtain ⟨-, unchanged⟩ := idle.forM_induction (fun visited current =>
    workspace.units.length ≤ current.units.length ∧
      (current.units.length = workspace.units.length → current = workspace ∧
        ∀ classifier ∈ visited, missingMembers workspace.program classifier = []))
    ⟨Nat.le_refl _, fun _ => ⟨rfl, by simp⟩⟩ (by
      rintro visited item rest current following - ⟨grown, still⟩ step
      rcases cases_inferTemporalPropertiesOf step with ⟨none, rfl⟩ | ⟨parent, infers⟩
      · refine ⟨grown, fun same => ⟨(still same).1, fun other member => ?_⟩⟩
        rcases List.mem_append.mp member with earlier | last
        · exact (still same).2 other earlier
        · rw [List.mem_singleton.mp last, ← none, (still same).1]
      · have more : following.units.length = current.units.length + 1 := by
          rw [infers.units, List.length_append, List.length_singleton]
        exact ⟨by omega, fun same => by omega⟩)
  exact missing ((unchanged rfl).2 classifier visits)

/-- Where nothing is missing an inference changes nothing. -/
theorem idle_of_missingMembers {workspace : Workspace}
    (complete : ∀ classifier, missingMembers workspace.program classifier = []) :
    inferTemporalProperties.Returns workspace () workspace := by
  simp only [inferTemporalProperties, returns_get_bind]
  apply returns_forM_of_idle
  intro classifier _
  simp only [inferTemporalPropertiesOf, returns_get_bind, complete classifier]
  exact returns_pure.mpr ⟨rfl, rfl⟩

end Phase

/-- After every analysis that infers temporal properties, with or without reported problems, a
classifier lacks a property that it asks for exactly when it obscures one. Inferring again
succeeds and changes nothing exactly when no classifier lacks any. -/
theorem analyze_inference_idle {options : Options} {units : List CompilationUnit}
    {after : Workspace} (wanted : options.temporalProperties = true)
    (analysed : Phase.analyze.perform { options, units } = (.ok (), after)) :
    ((∀ classifier family part, ¬ after.program.Obscures classifier family part) ↔
      ∀ classifier, Temporal.missingMembers after.program classifier = []) ∧
    ((∀ classifier, Temporal.missingMembers after.program classifier = []) ↔
      Phase.inferTemporalProperties.perform after = (.ok (), after)) := by
  obtain ⟨recorded, fragments, start, inferred, served, stages, rfl⟩ :=
    Phase.exists_stages analysed
  refine ⟨⟨fun clear classifier => ?_, fun complete classifier family part obscures => ?_⟩,
    Phase.idle_of_missingMembers, Phase.missingMembers_of_idle⟩
  · rw [Temporal.missingMembers_eq_nil_iff]
    intro family requests part
    by_contra absent
    have clashes := (stages.provides_or_clashes wanted requests part).resolve_left absent
    exact clear classifier family part ⟨requests, absent, clashes⟩
  · exact obscures.absent
      (Temporal.missingMembers_eq_nil_iff.mp (complete classifier) family obscures.requests part)

namespace Sample

open Syntax

/-- A property that is an instant of time. -/
def instant (name : String) (modifiers : List Modifier) : Member :=
  .property (.bare name (.primitive .temporalInstant) true modifiers [])

/-- Leases are valid for a time that starts at an instant which is written, and inherit the time
of their recording. -/
def leases : SourceTree where
  package := ⟨.bare, "com.example"⟩
  elements := [
    klass "Agreement" none [.systemTemporal] [number "id" false [.key]],
    klass "Lease" (some "Agreement") [.bitemporal] [instant "validFrom" [.valid, .fromInstant]]]

/-- The start of a period has the name that is inferred for a range, so the range of a contract
hides it. -/
def periods : SourceTree where
  package := ⟨.bare, "com.example"⟩
  elements := [
    klass "Period" none [] [number "id" false [.key], instant "valid" [.valid, .fromInstant]],
    klass "Contract" (some "Period") [.validTemporal] []]

end Sample

/-- For leases five properties are inferred, on two classes, and then nothing is obscured and
nothing is left to infer. -/
theorem analyze_inference_idle_leases :
    ∃ after, Phase.analyze.perform
        { options := {}, units := [.ofTree ⟨0⟩ "leases" Sample.leases] } = (.ok (), after) ∧
      after.program.properties.records.map (fun property =>
        (property.name.name, property.inferred.isSome)) =
          [("id", false), ("validFrom", false), ("system", true), ("systemFrom", true),
            ("systemTo", true), ("valid", true), ("validTo", true)] ∧
      (∀ classifier family part, ¬ after.program.Obscures classifier family part) ∧
      Phase.inferTemporalProperties.perform after = (.ok (), after) := by
  have seen : (Phase.analyze.perform
      { options := {}, units := [.ofTree ⟨0⟩ "leases" Sample.leases] }).map Except.toOption
        (fun after => (after.program.properties.records.map (fun property =>
          (property.name.name, property.inferred.isSome)),
          after.program.classifiers.all fun classifier =>
            (Temporal.missingMembers after.program classifier).isEmpty)) =
      (some (), ([("id", false), ("validFrom", false), ("system", true), ("systemFrom", true),
        ("systemTo", true), ("valid", true), ("validTo", true)], true)) := by cbv
  obtain ⟨after, analysed, seen⟩ := Phase.exists_returns_of_map_eq seen
  obtain ⟨names, none⟩ := Prod.mk.inj seen
  have complete (classifier : ClassifierIndex) :
      Temporal.missingMembers after.program classifier = [] := by
    by_contra missing
    have held := Program.mem_classifiers.mpr (Temporal.holds_of_missingMembers missing)
    exact missing (List.isEmpty_iff.mp (List.all_eq_true.mp none classifier held))
  obtain ⟨clear, idle⟩ := analyze_inference_idle rfl analysed
  exact ⟨after, analysed, names, clear.mpr complete, idle.mp complete⟩

/-- The range that is inferred for contracts hides the start that they inherit. Nothing is
reported, and a second inference adds a start. -/
theorem analyze_inference_again_periods :
    ∃ after, Phase.analyze.perform
        { options := {}, units := [.ofTree ⟨0⟩ "periods" Sample.periods] } = (.ok (), after) ∧
      after.report.hasErrors = false ∧ after.program.properties.size = 4 ∧
      (Phase.inferTemporalProperties.perform after).2.program.properties.size = 5 ∧
      Phase.inferTemporalProperties.perform after ≠ (.ok (), after) := by
  have seen : (Phase.analyze.perform
      { options := {}, units := [.ofTree ⟨0⟩ "periods" Sample.periods] }).map Except.toOption
        (fun after => (after.report.hasErrors, after.program.properties.size,
          (Phase.inferTemporalProperties.perform after).2.program.properties.size)) =
      (some (), (false, 4, 5)) := by cbv
  obtain ⟨after, analysed, seen⟩ := Phase.exists_returns_of_map_eq seen
  simp only [Prod.mk.injEq] at seen
  obtain ⟨quiet, four, five⟩ := seen
  refine ⟨after, analysed, quiet, four, five, fun idle => ?_⟩
  rw [idle, four] at five
  cases five

end DomainLang
