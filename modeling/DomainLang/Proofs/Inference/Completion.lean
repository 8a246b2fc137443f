import DomainLang.Proofs.Hierarchy.Ancestry

/-!
# What classifiers are completed with

Which properties a classifier lacks depends on the properties written on it and on those that
its ancestors have. As ancestors are visited first, what a classifier has in the end is the
solution of one equation, in which no order of classifiers and no position of a record
occurs.
-/

namespace DomainLang

open Resolved

variable {classifier : ClassifierIndex}

/-- Keeping first occurrences and reading items can be done in either order. -/
theorem map_keepFirst {α β κ : Type} [DecidableEq κ] (key : β → κ) (view : α → β)
    (items : List α) :
    (keepFirst (fun item => key (view item)) items).map view = keepFirst key (items.map view) := by
  induction items with
  | nil => rfl
  | cons item rest ih =>
    rw [keepFirst, List.map_cons, List.map_cons, keepFirst, ← ih, List.filter_map]
    rfl

/-- Places do not matter for which modifiers are written. -/
@[simp]
theorem Resolved.hasModifier_stripped (marks : List Syntax.ModifierMark) (modifier : Modifier) :
    hasModifier (marks.map Syntax.ModifierMark.stripped) modifier = hasModifier marks modifier := by
  simp only [hasModifier, List.any_map]
  rfl

namespace Program

/-- The properties that a classifier itself has, as they are written. -/
def ownProperties (program : Program) (classifier : ClassifierIndex) : List Syntax.Property :=
  (program.classifier classifier).properties.map fun property =>
    (program.properties.get property).declaration.stripped

theorem ownProperties_of_not_holds {program : Program}
    (absent : ¬ program.HoldsClassifier classifier) : program.ownProperties classifier = [] := by
  rw [ownProperties, classifier_of_not_holds absent]
  rfl

/-- The properties of a classifier are those that name it as their owner. -/
theorem Coherent.ownProperties_eq {program : Program} (coherent : program.Coherent none none)
    (classifier : ClassifierIndex) :
    program.ownProperties classifier =
      (program.properties.records.filter (·.owner = classifier)).map (·.declaration.stripped) := by
  rw [← Arena.map_get_select, List.map_map]
  by_cases holds : program.HoldsClassifier classifier
  · rw [ownProperties, coherent.properties.listed_eq classifier holds id]
    rfl
  · rw [ownProperties_of_not_holds holds, coherent.properties.select_eq_nil holds]
    rfl

namespace SameClassifiers

variable {before after : Program} (same : before.SameClassifiers after)
include same

theorem superclass?_eq : after.superclass? = before.superclass? := by
  funext klass
  exact Arena.field_get_of_map_eq same.classes.symm (·.superclass?) (fun _ => rfl) klass

theorem resolvedInterfaces_eq (classifier : ClassifierIndex) :
    (after.classifier classifier).resolvedInterfaces =
      (before.classifier classifier).resolvedInterfaces := by
  cases classifier with
  | interface index =>
    exact Arena.field_get_of_map_eq same.interfaces.symm (·.resolvedInterfaces) (fun _ => rfl) index
  | klass index =>
    exact Arena.field_get_of_map_eq same.classes.symm (·.resolvedInterfaces) (fun _ => rfl) index

theorem parentInterfaces_eq : after.parentInterfaces = before.parentInterfaces := by
  funext interface
  exact same.resolvedInterfaces_eq (.interface interface)

theorem parents_eq : after.parents = before.parents := by
  funext classifier
  cases classifier with
  | interface index => rw [parents, parents, same.parentInterfaces_eq]
  | klass index =>
    rw [parents, parents, same.superclass?_eq]
    exact congrArg (_ ++ List.map _ ·) (same.resolvedInterfaces_eq (.klass index))

theorem modifiers_eq (classifier : ClassifierIndex) :
    (after.classifier classifier).modifiers = (before.classifier classifier).modifiers := by
  cases classifier with
  | interface index =>
    exact Arena.field_get_of_map_eq same.interfaces.symm (·.modifiers) (fun _ => rfl) index
  | klass index =>
    exact Arena.field_get_of_map_eq same.classes.symm (·.modifiers) (fun _ => rfl) index

theorem interfaceEdges_eq : after.interfaceEdges = before.interfaceEdges := by
  have listed (program : Program) : program.interfaces.records.flatMap (·.interfaces) =
      (program.interfaces.map Classifier.memberless).records.flatMap (·.interfaces) :=
    (List.flatMap_map Classifier.memberless (·.interfaces) program.interfaces.records).symm
  rw [interfaceEdges, interfaceEdges, listed, listed, same.interfaces]

theorem lineage_eq : after.lineage = before.lineage := by
  funext classifier
  cases classifier with
  | interface index => rfl
  | klass index =>
    rw [lineage, lineage, superclassChain, superclassChain, same.superclass?_eq, same.sizeClasses]

/-- What properties are inherited from does not depend on members. -/
theorem propertySources_eq : after.propertySources = before.propertySources := by
  have reachable : after.reachableInterfaces = before.reachableInterfaces := by
    funext seen queue
    rw [reachableInterfaces, reachableInterfaces, same.parentInterfaces_eq, same.interfaceEdges_eq]
  funext classifier
  cases classifier with
  | interface _ | klass _ =>
    simp only [propertySources, allInterfaces, same.lineage_eq, same.resolvedInterfaces_eq,
      reachable]

end SameClassifiers
end Program

namespace Temporal

/-- Only modifiers ask for families. -/
theorem requestedFamilies_congr {first second : Classifier}
    (same : first.modifiers.map (·.modifier) = second.modifiers.map (·.modifier)) :
    requestedFamilies first = requestedFamilies second := by
  have families (classifier : Classifier) :
      classifier.modifiers.flatMap (fun mark => familiesOf mark.modifier) =
        (classifier.modifiers.map (·.modifier)).flatMap familiesOf :=
    (List.flatMap_map Syntax.ModifierMark.modifier familiesOf _).symm
  rw [requestedFamilies, requestedFamilies, families, families, same]

/-- Whether a property that is written so is for a part of a family. -/
def isPart (family : Modifier) (part : TemporalPart) (declaration : Syntax.Property) : Bool :=
  let property : Property := ⟨default, declaration, none, default, none⟩
  property.temporalFamily? = some family && property.temporalPart? = some part

/-- What a property is for does not depend on where it is written. -/
theorem isPart_stripped (family : Modifier) (part : TemporalPart) (property : Property) :
    isPart family part property.declaration.stripped =
      (property.temporalFamily? = some family && property.temporalPart? = some part) := by
  have has : (⟨default, property.declaration.stripped, none, default, none⟩ : Property).has =
      property.has :=
    funext fun modifier => hasModifier_stripped property.declaration.modifiers modifier
  have family? : (⟨default, property.declaration.stripped, none, default, none⟩ :
      Property).temporalFamily? = property.temporalFamily? :=
    congrArg ([Modifier.valid, Modifier.system].find? ·) has
  have part? : (⟨default, property.declaration.stripped, none, default, none⟩ :
      Property).temporalPart? = property.temporalPart? := by
    rw [Property.temporalPart?, family?, has, Property.temporalPart?]
  rw [isPart, family?, part?]

/-- The properties of families for which nothing is present. -/
def missingFrom (families : List Modifier) (present : List Syntax.Property) :
    List Syntax.Property :=
  families.flatMap fun family =>
    (TemporalPart.all.filter fun part => !present.any (isPart family part)).map
      (propertyFor family)

/-- The properties that are seen where several classifiers are inherited from. -/
def visible (sources : List ClassifierIndex) (own : ClassifierIndex → List Syntax.Property) :
    List Syntax.Property :=
  keepFirst (·.name.name) (sources.flatMap own)

/-- What is visible is what all properties of a classifier are written as. -/
theorem visible_propertySources (program : Program) (classifier : ClassifierIndex) :
    visible (program.propertySources classifier) program.ownProperties =
      (program.allProperties classifier).map fun index =>
        (program.properties.get index).declaration.stripped := by
  rw [visible, Program.allProperties]
  exact (congrArg (keepFirst _) (List.map_flatMap ..).symm).trans
    (map_keepFirst (fun property : Syntax.Property => property.name.name) _ _).symm

/-- What is missing can be read off what is written. -/
theorem missingMembers_eq (program : Program) (classifier : ClassifierIndex) :
    missingMembers program classifier =
      (missingFrom (requestedFamilies (program.classifier classifier))
        (visible (program.propertySources classifier) program.ownProperties)).map .property := by
  have present (family : Modifier) (part : TemporalPart) :
      isPresent program classifier family part =
        (visible (program.propertySources classifier) program.ownProperties).any
          (isPart family part) := by
    rw [visible_propertySources, List.any_map, isPresent]
    congr 1
    funext index
    exact (isPart_stripped family part _).symm
  simp only [missingMembers, missingFrom, present, List.map_flatMap, List.map_map]
  rfl

end Temporal

namespace Phase

open Temporal

variable {before after : Workspace}

/-- The properties of a fragment are those that were missing. -/
theorem declarations_temporalFragment (workspace : Workspace) (parent : CompilationUnit)
    (classifier : ClassifierIndex) :
    (temporalFragment workspace parent classifier).fragmentProperties.map
        (·.declaration.stripped) =
      missingFrom (requestedFamilies (workspace.program.classifier classifier))
        (visible (workspace.program.propertySources classifier)
          workspace.program.ownProperties) := by
  set missing := missingFrom (requestedFamilies (workspace.program.classifier classifier))
    (visible (workspace.program.propertySources classifier) workspace.program.ownProperties)
    with isMissing
  have placeless : missing.map Syntax.Property.stripped = missing := by
    rw [isMissing, missingFrom, List.map_flatMap]
    simp only [List.map_map, Function.comp_def, stripped_propertyFor]
  calc (temporalFragment workspace parent classifier).fragmentProperties.map
        (·.declaration.stripped)
      = ((fragmentMembers workspace.program classifier).filterMap
          Syntax.Member.property?).map Syntax.Property.stripped := by
        rw [← map_declaration_properties (temporalFragment workspace parent classifier) classifier
          (some .temporalProperties), List.map_map]
        rfl
    _ = ((missingMembers workspace.program classifier).map
          Syntax.Member.stripped).filterMap Syntax.Member.property? := by
        rw [map_stripped_property?, fragmentMembers, (Syntax.Numbering.numbers_members ..).words]
    _ = missing := by
        rw [← map_stripped_property?, missingMembers_eq, ← isMissing, List.filterMap_map]
        exact (congrArg _ List.filterMap_some).trans placeless

/-- A visit to a classifier adds the properties that the classifier lacks, and nothing else. -/
structure Completes (classifier : ClassifierIndex) (added : List Property)
    (before after : Program) : Prop where
  same : before.SameClassifiers after
  wasCoherent : before.Coherent none none
  coherent : after.Coherent none none
  records : after.properties.records = before.properties.records ++ added
  missing : added.map (·.declaration.stripped) =
    missingFrom (requestedFamilies (before.classifier classifier))
      (visible (before.propertySources classifier) before.ownProperties)
  each : ∀ property ∈ added, property.owner = classifier ∧
    property.inferred = some .temporalProperties

theorem completes_inferTemporalPropertiesOf (coherent : before.program.Coherent none none)
    (returns : (inferTemporalPropertiesOf classifier).Returns before () after) :
    ∃ added, Completes classifier added before.program after.program := by
  rcases cases_inferTemporalPropertiesOf returns with ⟨none, rfl⟩ | ⟨parent, infers⟩
  · rw [missingMembers_eq, List.map_eq_nil_iff] at none
    exact ⟨[], .refl _, coherent, coherent, by simp, by rw [none]; rfl, by simp⟩
  · have adds := infers.adds
    rw [List.flatMap_singleton, List.flatMap_singleton] at adds
    refine ⟨_, adds.classifiers, coherent, adds.coherent coherent, adds.properties_eq,
      declarations_temporalFragment before parent classifier, fun property member => ?_⟩
    obtain ⟨written, -, made⟩ := List.mem_filterMap.mp member
    cases written <;> cases made
    exact ⟨rfl, rfl⟩

/-- The visited classifier gains what was added, and no other classifier changes. -/
theorem Completes.ownProperties_eq {added : List Property} {before after : Program}
    (completes : Completes classifier added before after) (other : ClassifierIndex) :
    after.ownProperties other = before.ownProperties other ++
      if other = classifier then added.map (·.declaration.stripped) else [] := by
  rw [completes.coherent.ownProperties_eq, completes.wasCoherent.ownProperties_eq,
    completes.records, List.filter_append, List.map_append]
  congr 1
  split
  · next same =>
    rw [List.filter_eq_self.mpr fun property member => by
      simp [same, (completes.each property member).1]]
  · next different =>
    rw [List.filter_eq_nil_iff.mpr, List.map_nil]
    intro property member
    rw [(completes.each property member).1, decide_eq_true_eq]
    exact Ne.symm different

/-- What is known after some classifiers were visited: those have what they had and what they
lacked, the others what they had. -/
structure CompletedSoFar (start : Program) (visited : List ClassifierIndex) (current : Program) :
    Prop where
  same : start.SameClassifiers current
  coherent : current.Coherent none none
  completed : ∀ classifier ∈ visited, current.ownProperties classifier =
    start.ownProperties classifier ++
      missingFrom (requestedFamilies (start.classifier classifier))
        (visible (start.propertySources classifier) fun source =>
          if source = classifier then start.ownProperties classifier
          else current.ownProperties source)
  waiting : ∀ classifier, classifier ∉ visited →
    current.ownProperties classifier = start.ownProperties classifier

/-- One more classifier is visited, and nothing that it inherits from is left. -/
theorem CompletedSoFar.visit {start : Program} {visited rest : List ClassifierIndex}
    (acyclic : start.Acyclic)
    (sorted : Graph.ParentsFirst start.parents (visited ++ classifier :: rest))
    (distinct : (visited ++ classifier :: rest).Nodup)
    (soFar : CompletedSoFar start visited before.program)
    (step : (inferTemporalPropertiesOf classifier).Returns before () after) :
    CompletedSoFar start (visited ++ [classifier]) after.program := by
  obtain ⟨added, completes⟩ := completes_inferTemporalPropertiesOf soFar.coherent step
  have gains := completes.ownProperties_eq
  have unvisited : classifier ∉ visited := by
    intro earlier
    exact (List.nodup_append.mp distinct).2.2 classifier earlier classifier List.mem_cons_self rfl
  have others {other : ClassifierIndex} (different : other ≠ classifier) :
      after.program.ownProperties other = before.program.ownProperties other := by
    rw [gains other, if_neg different, List.append_nil]
  refine ⟨soFar.same.trans completes.same, completes.coherent, ?_, ?_⟩
  · intro visitedOne member
    rcases List.mem_append.mp member with earlier | last
    · -- What an earlier classifier inherits from was visited even before it.
      have different : visitedOne ≠ classifier := fun equal => unvisited (equal ▸ earlier)
      obtain ⟨front, back, rfl⟩ := List.append_of_mem earlier
      rw [others different, soFar.completed visitedOne earlier]
      congr 2
      apply congrArg (keepFirst _)
      apply List.flatMap_congr
      intro source isSource
      split
      · rfl
      · next isOther =>
        have before := acyclic.mem_earlier sorted (List.append_assoc front _ (classifier :: rest))
          (Program.conforms_iff.mp (Program.mem_propertySources.mp isSource)) isOther
        exact (others fun equal => unvisited (equal ▸ List.mem_append_left _ before)).symm
    · rw [List.mem_singleton.mp last, gains classifier, if_pos rfl, completes.missing,
        soFar.waiting classifier unvisited,
        requestedFamilies_congr (congrArg _ (soFar.same.modifiers_eq classifier)),
        soFar.same.propertySources_eq]
      congr 2
      apply congrArg (keepFirst _)
      apply List.flatMap_congr
      intro source _
      split
      · next equal => rw [equal, soFar.waiting classifier unvisited]
      · next isOther => exact (others isOther).symm
  · intro other absent
    rw [List.mem_append, List.mem_singleton, not_or] at absent
    rw [others absent.2, soFar.waiting other absent.1]

/-- What every classifier has in the end, in a program without cycles. -/
theorem completedSoFar_inferTemporalProperties (acyclic : before.program.Acyclic)
    (coherent : before.program.Coherent none none)
    (returns : inferTemporalProperties.Returns before () after) :
    CompletedSoFar before.program before.program.inheritanceOrder after.program := by
  obtain ⟨-, -, distinct, sorted⟩ := before.program.inheritanceOrder_parentsFirst
  simp only [inferTemporalProperties, returns_get_bind] at returns
  apply returns.forM_induction fun visited current =>
    CompletedSoFar before.program visited current.program
  · exact ⟨.refl _, coherent, by simp, fun _ _ => rfl⟩
  · intro visited classifier rest current following split soFar step
    rw [split] at distinct sorted
    exact soFar.visit acyclic sorted distinct step

end Phase
end DomainLang
