import DomainLang.Proofs.Inference.Repetition

/-!
# Which temporal properties are inferred

In a program without errors each classifier is given exactly the properties that it lacks beside
its written properties and all that it inherits. Nothing superfluous is inferred: an inferred
property is the only visible one for its part, and its classifier asks for its family. A part that
is asked for is provided, with one exception, `Program.Conceals`: it was inherited, so that nothing
was inferred for it, but under a name which the classifier then inferred for another part.
-/

namespace DomainLang

open Resolved

namespace Program

/-- The classifier inherits a property for a part of a family, and has inferred a property with
the same name which is for something else. -/
def Conceals (program : Program) (classifier : ClassifierIndex) (family : Modifier)
    (part : TemporalPart) : Prop :=
  ∃ hidden hider, program.Sees classifier hidden ∧ program.Sees classifier hider ∧
    hidden.owner ≠ classifier ∧ hidden.IsFor family part ∧
    hider.owner = classifier ∧ hider.inferred.isSome ∧ ¬ hider.IsFor family part ∧
    hider.name.name = hidden.name.name

end Program

/-- A property is for one part at most. -/
theorem Resolved.Property.IsFor.unique {property : Property} {family otherFamily : Modifier}
    {part otherPart : TemporalPart} (isFor : property.IsFor family part)
    (isForOther : property.IsFor otherFamily otherPart) :
    family = otherFamily ∧ part = otherPart :=
  ⟨Option.some.inj (isFor.1.symm.trans isForOther.1),
    Option.some.inj (isFor.2.symm.trans isForOther.2)⟩

namespace Temporal

theorem isPart_unique {family otherFamily : Modifier} {part otherPart : TemporalPart}
    {declaration : Syntax.Property} (isFor : isPart family part declaration = true)
    (isForOther : isPart otherFamily otherPart declaration = true) :
    family = otherFamily ∧ part = otherPart := by
  simp only [isPart, Bool.and_eq_true, decide_eq_true_eq] at isFor isForOther
  exact Property.IsFor.unique isFor isForOther

end Temporal

namespace Program

open Temporal

/-- What is visible to a classifier if it has the given properties itself. -/
def seenWith (program : Program) (classifier : ClassifierIndex) (own : List Syntax.Property) :
    List Syntax.Property :=
  visible (program.propertySources classifier) fun source =>
    if source = classifier then own else program.ownProperties source

/-- Those of the properties that belong to a classifier, as they are written. -/
def ownedBy (properties : List Property) (classifier : ClassifierIndex) :
    List Syntax.Property :=
  (properties.filter (·.owner = classifier)).map (·.declaration.stripped)

theorem mem_ownedBy {properties : List Property} {classifier : ClassifierIndex}
    {declaration : Syntax.Property} :
    declaration ∈ ownedBy properties classifier ↔ ∃ property ∈ properties,
      property.owner = classifier ∧ property.declaration.stripped = declaration := by
  simp only [ownedBy, List.mem_map, List.mem_filter, decide_eq_true_eq, and_assoc]

/-- What each classifier has in the end: `written`, and those of the properties `added` which
name it. They are what it lacked when its written properties and all inherited ones were
there. -/
structure Completed (written : ClassifierIndex → List Syntax.Property) (added : List Property)
    (program : Program) : Prop where
  coherent : program.Coherent none none
  apart : ∀ classifier, program.MembersApart classifier
  records : ∀ property ∈ program.properties.records, property.inferred.isSome → property ∈ added
  inferred : ∀ property ∈ added,
    property ∈ program.properties.records ∧ property.inferred.isSome
  own : ∀ classifier, program.ownProperties classifier =
    written classifier ++ ownedBy added classifier
  missing : ∀ classifier, ownedBy added classifier =
    missingFrom (requestedFamilies (program.classifier classifier))
      (program.seenWith classifier (written classifier))

namespace Completed

variable {written : ClassifierIndex → List Syntax.Property} {added : List Property}
  {program : Program} (completed : Completed written added program)
  {classifier : ClassifierIndex} {family : Modifier} {part : TemporalPart}
include completed

/-- What a classifier owns is visible. -/
theorem mem_allProperties {index : PropertyIndex} (holds : program.properties.Holds index) :
    index ∈ program.allProperties (program.properties.get index).owner := by
  have owns := (completed.coherent.properties.mem_listed
    (completed.coherent.properties.held_owner index holds) id).mpr ⟨holds, rfl⟩
  obtain ⟨inherited, sources⟩ :=
    program.exists_propertySources_eq_cons (program.properties.get index).owner
  rw [allProperties, sources, List.flatMap_cons]
  exact mem_keepFirst_append_left (completed.apart _).properties owns

/-- An inferred property is for a part that its classifier asked for and lacked. -/
theorem lacks_of_mem_added {property : Property} (among : property ∈ added) :
    ∃ family part, property.declaration.stripped = propertyFor family part ∧
      property.IsFor family part ∧
      family ∈ requestedFamilies (program.classifier property.owner) ∧
      (program.seenWith property.owner (written property.owner)).any (isPart family part) =
        false := by
  have member : property.declaration.stripped ∈ ownedBy added property.owner :=
    mem_ownedBy.mpr ⟨property, among, rfl, rfl⟩
  rw [completed.missing, mem_missingFrom] at member
  obtain ⟨family, requested, part, lacking, same⟩ := member
  refine ⟨family, part, same, isPart_iff.mp ?_, requested, lacking⟩
  rw [same]
  exact isPart_propertyFor (requestedFamilies_subset _ requested) part

/-- What was lacking is provided by the property that was added for it. -/
theorem provides_of_lacking (requested : family ∈ requestedFamilies (program.classifier classifier))
    (lacking : (program.seenWith classifier (written classifier)).any (isPart family part) =
      false) :
    program.Provides classifier family part := by
  have member : propertyFor family part ∈ ownedBy added classifier := by
    rw [completed.missing, mem_missingFrom]
    exact ⟨family, requested, part, lacking, rfl⟩
  obtain ⟨property, isAdded, rfl, same⟩ := mem_ownedBy.mp member
  obtain ⟨index, holds, rfl⟩ := Arena.mem_records.mp (completed.inferred property isAdded).1
  refine ⟨index, completed.mem_allProperties holds, isPart_iff.mp ?_⟩
  rw [same]
  exact isPart_propertyFor (requestedFamilies_subset _ requested) part

/-- What a classifier has is what it had and what was added. -/
theorem gains (source : ClassifierIndex) :
    program.ownProperties source =
      (if source = classifier then written classifier else program.ownProperties source) ++
        if source = classifier then ownedBy added classifier else [] := by
  split
  · next same => rw [same, completed.own]
  · exact (List.append_nil _).symm

/-- A classifier does not infer a property with a name that is written on it. -/
theorem not_written {declaration : Syntax.Property} {property : Property}
    (isWritten : declaration ∈ written property.owner) (among : property ∈ added) :
    property.name.name ≠ declaration.name.name := by
  have names : ((program.ownProperties property.owner).map (·.name.name)).Nodup := by
    rw [ownProperties, List.map_map]
    exact (completed.apart property.owner).properties
  rw [completed.own, List.map_append, List.nodup_append] at names
  have isAdded : property.declaration.stripped ∈ ownedBy added property.owner :=
    mem_ownedBy.mpr ⟨property, among, rfl, rfl⟩
  exact (names.2.2 _ (List.mem_map_of_mem isWritten) _ (List.mem_map_of_mem isAdded)).symm

/-- A part that was there stays in sight, or the classifier conceals it. -/
theorem provides_or_conceals_of_present
    (present : (program.seenWith classifier (written classifier)).any (isPart family part) = true) :
    program.Provides classifier family part ∨ program.Conceals classifier family part := by
  obtain ⟨declaration, member, isFor⟩ := List.any_eq_true.mp present
  rcases visible_gain completed.gains member with still | ⟨-, _, isAdded, named, -⟩
  · exact .inl (provides_iff.mpr ⟨declaration, still, isFor⟩)
  · obtain ⟨hider, hiderAdded, rfl, rfl⟩ := mem_ownedBy.mp isAdded
    obtain ⟨hiderRecord, inferred⟩ := completed.inferred hider hiderAdded
    obtain ⟨source, isSource, has⟩ := List.mem_flatMap.mp (mem_of_mem_keepFirst member)
    split at has
    · exact absurd named (completed.not_written has hiderAdded)
    · next inherited =>
      obtain ⟨hidden, hiddenRecord, rfl, rfl⟩ := completed.coherent.mem_ownProperties.mp has
      have otherwise : ¬ hider.IsFor family part := by
        intro isForToo
        obtain ⟨_, _, -, hiderIsFor, -, lacking⟩ := completed.lacks_of_mem_added hiderAdded
        obtain ⟨rfl, rfl⟩ := hiderIsFor.unique isForToo
        rw [present] at lacking
        cases lacking
      exact .inr ⟨hidden, hider, ⟨hiddenRecord, isSource⟩,
        ⟨hiderRecord, program.mem_propertySources_self _⟩, inherited, isPart_iff.mp isFor, rfl,
        inferred, otherwise, named⟩

/-- Each part that a classifier asks for is provided or concealed. -/
theorem provides_or_conceals
    (requests : (program.classifier classifier).Requests family) :
    program.Provides classifier family part ∨ program.Conceals classifier family part := by
  cases present : (program.seenWith classifier (written classifier)).any (isPart family part) with
  | true => exact completed.provides_or_conceals_of_present present
  | false => exact .inl (completed.provides_of_lacking (mem_requestedFamilies.mpr requests) present)

/-- What is visible and for a part that was lacking is the property that was added for it. -/
theorem eq_propertyFor_of_lacking {declaration : Syntax.Property}
    (lacking : (program.seenWith classifier (written classifier)).any (isPart family part) = false)
    (inSight : declaration ∈ visible (program.propertySources classifier) program.ownProperties)
    (isFor : isPart family part declaration = true) :
    declaration = propertyFor family part := by
  have first := mem_keepFirst_iff.mp inSight
  rcases find?_flatMap_gain completed.gains (program.propertySources classifier)
    fun other => other.name.name = declaration.name.name with same | ⟨-, item, isAdded, found⟩
  · have earlier := List.any_eq_false.mp lacking declaration
      (mem_keepFirst_iff.mpr (same.symm.trans first))
    exact absurd isFor earlier
  · obtain rfl := Option.some.inj (found.symm.trans first)
    rw [completed.missing, mem_missingFrom] at isAdded
    obtain ⟨otherFamily, requested, otherPart, -, rfl⟩ := isAdded
    obtain ⟨rfl, rfl⟩ := isPart_unique isFor
      (isPart_propertyFor (requestedFamilies_subset _ requested) otherPart)
    rfl

/-- An inferred property is for a part of a family that its classifier asks for, and no other
visible property of the classifier is for that part. -/
theorem only_inferred {index : PropertyIndex} (holds : program.properties.Holds index)
    (inferred : (program.properties.get index).inferred.isSome) :
    ∃ family part, (program.properties.get index).IsFor family part ∧
      (program.classifier (program.properties.get index).owner).Requests family ∧
      ∀ other ∈ program.allProperties (program.properties.get index).owner,
        (program.properties.get other).IsFor family part → other = index := by
  have among := completed.records _ (Arena.get_mem_records holds) inferred
  obtain ⟨family, part, same, isFor, requested, lacking⟩ := completed.lacks_of_mem_added among
  refine ⟨family, part, isFor, mem_requestedFamilies.mp requested, ?_⟩
  intro other inSight otherIsFor
  have otherVisible : (program.properties.get other).declaration.stripped ∈
      visible (program.propertySources (program.properties.get index).owner)
        program.ownProperties := by
    rw [visible_propertySources]
    exact List.mem_map_of_mem inSight
  have alike := completed.eq_propertyFor_of_lacking lacking otherVisible (isPart_iff.mpr otherIsFor)
  have named : program.propertyName other = program.propertyName index :=
    congrArg (·.name.name) (alike.trans same.symm)
  exact List.inj_on_of_nodup_map (nodup_keys_keepFirst program.propertyName _) inSight
    (completed.mem_allProperties holds) named

end Completed
end Program

/-- Before fragments are merged nothing is inferred. -/
theorem Workspace.Linked.inferred_eq_none {workspace : Workspace} {units : List CompilationUnit}
    {recorded : List RecordedDeclaration} (linked : workspace.Linked units recorded [])
    {property : Property} (among : property ∈ workspace.program.properties.records) :
    property.inferred = none := by
  obtain ⟨index, holds, rfl⟩ := Arena.mem_records.mp among
  rcases linked.property_origin holds with ⟨written, -⟩ | ⟨_, none, -⟩
  · exact written
  · cases none

namespace Phase

open Temporal

/-- An analysis without errors completes every classifier. -/
theorem Stages.completed {options : Options} {units : List CompilationUnit}
    {recorded : List RecordedDeclaration} {fragments : List CompilationUnit}
    {start inferred served : Workspace}
    (stages : Stages options units recorded fragments start inferred served)
    (wanted : options.temporalProperties = true) (free : served.linkReferences.ErrorFree) :
    ∃ added, served.linkReferences.program.Completed start.program.ownProperties added := by
  have temporal := returns_optionally.mp stages.temporal
  rw [stages.options_eq, if_pos wanted] at temporal
  have acyclic := free.acyclic stages.analysed.declarations
  unfold Program.Acyclic Program.HasParent at acyclic
  rw [stages.sameClassifiers.parents_eq] at acyclic
  have soFar := completedSoFar_inferTemporalProperties acyclic stages.linked.coherent temporal
  obtain ⟨fragments, infers⟩ := returns_inferTemporalProperties temporal
  have records : served.linkReferences.program.properties.records =
      start.program.properties.records ++ fragments.flatMap CompilationUnit.fragmentProperties := by
    rw [stages.classifiers_linkReferences.2.2]
    exact infers.adds.properties_eq
  have own (classifier : ClassifierIndex) :
      served.linkReferences.program.ownProperties classifier =
        start.program.ownProperties classifier ++ Program.ownedBy
          (fragments.flatMap CompilationUnit.fragmentProperties) classifier := by
    rw [Program.ownedBy, stages.analysed.coherent.ownProperties_eq,
      stages.linked.coherent.ownProperties_eq, records, List.filter_append, List.map_append]
  refine ⟨_, stages.analysed.coherent, Workspace.Analysed.membersApart free, ?_, ?_, own, ?_⟩
  · intro property among isInferred
    rw [records] at among
    rcases List.mem_append.mp among with isWritten | isAdded
    · rw [stages.linked.inferred_eq_none isWritten] at isInferred
      cases isInferred
    · exact isAdded
  · intro property isAdded
    obtain ⟨fragment, -, ofFragment⟩ := List.mem_flatMap.mp isAdded
    rw [records]
    obtain ⟨owner, members, declaration, -, -, rfl⟩ :=
      fragment.exists_of_mem_fragmentProperties ofFragment
    exact ⟨List.mem_append_right _ isAdded, rfl⟩
  · intro classifier
    have gained := own classifier
    rw [stages.ownProperties_linkReferences] at gained
    by_cases visited : classifier ∈ start.program.inheritanceOrder
    · rw [soFar.completed classifier visited] at gained
      rw [← List.append_cancel_left gained, Program.seenWith,
        requestedFamilies_congr (congrArg _ (stages.sameClassifiers.modifiers_eq classifier)),
        stages.sameClassifiers.propertySources_eq, stages.ownProperties_linkReferences]
    · have absent : ¬ served.linkReferences.program.HoldsClassifier classifier := by
        rw [stages.sameClassifiers.holdsClassifier_iff, ← Program.mem_classifiers]
        exact fun held => visited (start.program.inheritanceOrder_parentsFirst.1 held)
      rw [soFar.waiting classifier visited, List.self_eq_append_right] at gained
      rw [gained, Program.classifier_of_not_holds absent]
      rfl

end Phase

/-- After an analysis without errors that infers temporal properties, each part of a family that
a classifier asks for is provided by a visible property, unless the classifier conceals it.
Whatever was inferred on a classifier is visible there, is for a part of a family that the
classifier asks for, and is the only visible property for that part. -/
theorem analyze_temporalParts {options : Options} {units : List CompilationUnit}
    {after : Workspace} (wanted : options.temporalProperties = true)
    (analysed : Phase.analyze.perform { options, units } = (.ok (), after))
    (quiet : after.report.hasErrors = false) :
    (∀ classifier family, (after.program.classifier classifier).Requests family → ∀ part,
      after.program.Provides classifier family part ∨
        after.program.Conceals classifier family part) ∧
    ∀ index, after.program.properties.Holds index →
      (after.program.properties.get index).inferred.isSome →
      index ∈ after.program.allProperties (after.program.properties.get index).owner ∧
      ∃ family part, (after.program.properties.get index).IsFor family part ∧
        (after.program.classifier (after.program.properties.get index).owner).Requests family ∧
        ∀ other ∈ after.program.allProperties (after.program.properties.get index).owner,
          (after.program.properties.get other).IsFor family part → other = index := by
  obtain ⟨recorded, fragments, start, inferred, served, stages, rfl⟩ :=
    Phase.exists_stages analysed
  have free := (Workspace.errorFree_iff stages.analysed.report).mpr quiet
  obtain ⟨added, completed⟩ := stages.completed wanted free
  constructor
  · intro classifier family requests part
    exact completed.provides_or_conceals requests
  · intro index holds isInferred
    exact ⟨completed.mem_allProperties holds, completed.only_inferred holds isInferred⟩

/-- Leases inherit the parts of one family, have written one part of the other, and are given
the rest of it. -/
theorem analyze_temporalParts_leases :
    ∃ after, Phase.analyze.perform
        { options := {}, units := [.ofTree ⟨0⟩ "leases" Sample.leases] } = (.ok (), after) ∧
      after.report.hasErrors = false ∧
      (after.program.classifier (.klass ⟨1⟩)).Requests .valid ∧
      (∀ part, after.program.Provides (.klass ⟨1⟩) .valid part ∨
        after.program.Conceals (.klass ⟨1⟩) .valid part) ∧
      after.program.properties.Holds ⟨5⟩ ∧
      (after.program.properties.get ⟨5⟩).inferred.isSome ∧
      ⟨5⟩ ∈ after.program.allProperties (after.program.properties.get ⟨5⟩).owner := by
  have seen : (Phase.analyze.perform
      { options := {}, units := [.ofTree ⟨0⟩ "leases" Sample.leases] }).map Except.toOption
        (fun after => (after.report.hasErrors,
          hasModifier (after.program.classifier (.klass ⟨1⟩)).modifiers .bitemporal,
          after.program.properties.size, (after.program.properties.get ⟨5⟩).inferred.isSome)) =
      (some (), (false, true, 7, true)) := by cbv
  obtain ⟨after, analysed, seen⟩ := Phase.exists_returns_of_map_eq seen
  simp only [Prod.mk.injEq] at seen
  obtain ⟨quiet, bitemporal, size, isInferred⟩ := seen
  have requests : (after.program.classifier (.klass ⟨1⟩)).Requests .valid := .inr bitemporal
  have holds : after.program.properties.Holds ⟨5⟩ := by
    rw [Arena.Holds, size]
    decide
  obtain ⟨parts, inferences⟩ := analyze_temporalParts rfl analysed quiet
  exact ⟨after, analysed, quiet, requests, parts _ _ requests, holds, isInferred,
    (inferences ⟨5⟩ holds isInferred).1⟩

/-- Contracts inherit a start, and then lack it. -/
theorem analyze_temporalParts_periods :
    ∃ after, Phase.analyze.perform
        { options := {}, units := [.ofTree ⟨0⟩ "periods" Sample.periods] } = (.ok (), after) ∧
      after.report.hasErrors = false ∧
      (after.program.classifier (.klass ⟨1⟩)).Requests .valid ∧
      ¬ after.program.Provides (.klass ⟨1⟩) .valid .fromInstant := by
  have seen : (Phase.analyze.perform
      { options := {}, units := [.ofTree ⟨0⟩ "periods" Sample.periods] }).map Except.toOption
        (fun after => (after.report.hasErrors,
          hasModifier (after.program.classifier (.klass ⟨1⟩)).modifiers .validTemporal,
          Temporal.isPresent after.program (.klass ⟨1⟩) .valid .fromInstant)) =
      (some (), (false, true, false)) := by cbv
  obtain ⟨after, analysed, seen⟩ := Phase.exists_returns_of_map_eq seen
  simp only [Prod.mk.injEq] at seen
  obtain ⟨quiet, validTemporal, absent⟩ := seen
  refine ⟨after, analysed, quiet, .inl validTemporal, fun provides => ?_⟩
  rw [Program.isPresent_iff.mpr provides] at absent
  cases absent

end DomainLang
