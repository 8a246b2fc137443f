import DomainLang.Proofs.Model.Integrity
import DomainLang.Proofs.Model.Typing

/-!
# Keys, ids and version ends of the classes of a model

The rules for classes are read off one by one. Those about keys look at declared and inherited
properties, as a model lists them, so what they demand holds of every class of a model. Those
about ids of transient classes and about version ends look at what a class declares or owns
itself. A model also has what is inherited, and there both can fail: a transient class may
inherit an id, and a class may inherit a version end beside a versioned end of its own. That is
all that can happen: what is in the way comes from a classifier above.
-/

namespace DomainLang

open Model (ClassId)

variable {index : ClassIndex}

namespace Rules

variable {program : Program} {klass : Resolved.Class}

/-- A stored class whose keys are in order has a key. -/
theorem exists_key_of_quiet {properties : List Resolved.Property}
    (quiet : Quiet (missingKey klass properties)) (stored : klass.isTransient = false) :
    ∃ property ∈ properties, property.has .key = true := by
  by_contra keyless
  have none : properties.any (·.has .key) = false := by
    rw [List.any_eq_false]
    exact fun property member isKey => keyless ⟨property, member, isKey⟩
  rw [missingKey, if_pos (by rw [stored, none]; rfl), Quiet.singleton] at quiet
  cases quiet

/-- Where a class has an id, its keys are ids. -/
theorem id_of_key_of_quiet {properties : List Resolved.Property}
    (quiet : Quiet (mixedKeys klass properties)) {first second : Resolved.Property}
    (isFirst : first ∈ properties) (isSecond : second ∈ properties)
    (isId : first.has .id = true) (isKey : second.has .key = true) : second.has .id = true := by
  by_contra plain
  rw [Bool.not_eq_true] at plain
  have mixed : (properties.any (·.has .id) &&
      properties.any fun property => property.has .key && !property.has .id) = true := by
    rw [Bool.and_eq_true, List.any_eq_true, List.any_eq_true]
    exact ⟨⟨first, isFirst, isId⟩, second, isSecond, by rw [isKey, plain]; rfl⟩
  rw [mixedKeys, if_pos mixed, Quiet.singleton] at quiet
  cases quiet

/-- A transient class declares no id. -/
theorem not_id_of_quiet (quiet : Quiet (transientIds program klass))
    (transient : klass.isTransient = true) {property : PropertyIndex}
    (declared : property ∈ klass.properties) :
    ¬ (program.properties.get property).has .id = true := by
  rw [transientIds, if_pos transient] at quiet
  have none := quiet.map_eq_nil fun _ => rfl
  rw [List.filter_eq_nil_iff] at none
  exact none _ (List.mem_map_of_mem declared)

/-- A class does not own a version end and a versioned end. -/
theorem not_versioned_of_quiet (quiet : Quiet (versionAndVersioned program klass))
    {version versioned : AssociationEndIndex} (ownsVersion : version ∈ klass.associationEnds)
    (ownsVersioned : versioned ∈ klass.associationEnds)
    (isVersion : (program.associationEnds.get version).has .version = true) :
    ¬ (program.associationEnds.get versioned).has .versioned = true := by
  intro isVersioned
  have found {modifier : Modifier} {associationEnd : AssociationEndIndex}
      (owned : associationEnd ∈ klass.associationEnds)
      (marked : (program.associationEnds.get associationEnd).has modifier = true) :
      ∃ first, (klass.associationEnds.map program.associationEnds.get).find?
        (·.has modifier) = some first :=
    Option.isSome_iff_exists.mp (List.find?_isSome.mpr ⟨_, List.mem_map_of_mem owned, marked⟩)
  obtain ⟨first, isFirst⟩ := found ownsVersion isVersion
  obtain ⟨second, isSecond⟩ := found ownsVersioned isVersioned
  simp only [versionAndVersioned, isFirst, isSecond, Quiet.singleton] at quiet
  cases quiet

end Rules

/-- The rules for classes, class by class. -/
theorem Workspace.ErrorFree.classRules {workspace : Workspace} (free : workspace.ErrorFree)
    (holds : workspace.program.classes.Holds index) :
    Quiet (Rules.classRules workspace.program index) := by
  simp only [ErrorFree, findings, Rules.findings, Quiet.append] at free
  obtain ⟨-, ⟨⟨⟨⟨classes, -⟩, -⟩, -⟩, -⟩, -⟩ := free
  rw [Rules.classes, Quiet.flatMap] at classes
  exact classes index (Arena.mem_indices.mpr holds)

namespace Assembly

open Allocation (position)

variable {program : Program} {allocation : Allocation} {model : DomainModel}

theorem mem_modifiers {marks : List Syntax.ModifierMark} {modifier : Modifier} :
    modifier ∈ modifiers marks ↔ Resolved.hasModifier marks modifier = true := by
  simp [modifiers, Resolved.hasModifier]

/-- Properties keep their modifiers. -/
theorem PropertyMade.has_eq {index : PropertyIndex} {record : Model.Property}
    (made : PropertyMade program allocation index record) (modifier : Modifier) :
    record.has modifier = (program.properties.get index).has modifier := by
  rw [Bool.eq_iff_iff, Model.Property.has, decide_eq_true_iff, made.modifiers, mem_modifiers]
  rfl

/-- Transient classes stay transient. -/
theorem Made.isTransient_position (made : Made program allocation model.parts)
    (has : index ∈ allocation.classes) :
    (model.parts.klass (position allocation.classes index)).isTransient =
      (program.classes.get index).isTransient := by
  have has : allocation.HasClassifier (.klass index) := has
  have kept : (model.parts.klass (position allocation.classes index)).modifiers =
      modifiers (program.classes.get index).modifiers := (made.classifier has).modifiers
  rw [Bool.eq_iff_iff, Model.Class.isTransient, Model.Class.has, decide_eq_true_iff, kept,
    mem_modifiers]
  rfl

/-- A marked end of a class is the first one with the mark. -/
theorem markedEnd_eq_ok {modifier : Modifier} {id : Model.AssociationEndId}
    (made : markedEnd program allocation index modifier = .ok (some id)) :
    ∃ associationEnd ∈ program.allAssociationEnds index,
      (program.associationEnds.get associationEnd).has modifier = true ∧
      associationEnd ∈ allocation.associationEnds ∧
      position allocation.associationEnds associationEnd = id := by
  rw [markedEnd] at made
  cases found : (program.allAssociationEnds index).find? fun associationEnd =>
      (program.associationEnds.get associationEnd).has modifier with
  | none =>
    rw [found] at made
    cases made
  | some associationEnd =>
    rw [found, Option.mapM_some] at made
    obtain ⟨_, known, ⟨⟩⟩ := bind_eq_ok.mp made
    obtain ⟨member, same⟩ := Allocation.idOf_eq_ok.mp known
    have marked := List.find?_some found
    exact ⟨associationEnd, List.mem_of_find?_eq_some found, marked, member, same⟩

/-- The version end and the versioned end are the first ends with these marks. -/
theorem Made.markedEnds_position (made : Made program allocation model.parts)
    (has : index ∈ allocation.classes) :
    markedEnd program allocation index .version =
        .ok (model.parts.klass (position allocation.classes index)).versionEnd ∧
      markedEnd program allocation index .versioned =
        .ok (model.parts.klass (position allocation.classes index)).versionedEnd := by
  have assembled := Allocation.made_at_position made.classes has
  change _ = Except.ok (model.parts.klass (position allocation.classes index)) at assembled
  simp only [Assembly.klass, bind_eq_ok, pure_eq_ok] at assembled
  obtain ⟨_, -, _, -, _, -, _, -, _, -, _, -, _, isVersion, _, isVersioned, record⟩ := assembled
  rw [← record]
  exact ⟨isVersion, isVersioned⟩

end Assembly

/-- A stored class has a key, and the keys of a class are all ids or none is; inherited
properties count. -/
structure DomainModel.WellKeyed (model : DomainModel) : Prop where
  keyed : ∀ id : ClassId, model.parts.Has id → (model.parts.klass id).isTransient = false →
    model.keyProperties id ≠ []
  unmixed : ∀ id : ClassId, model.parts.Has id →
    ∀ first ∈ model.properties (.klass id), ∀ second ∈ model.properties (.klass id),
      (model.parts.property first).has .id = true →
      (model.parts.property second).has .key = true →
        (model.parts.property second).has .id = true

namespace DomainModel.AssembledFrom

open Allocation (position)

variable {model : DomainModel} {units : List CompilationUnit}
  {recorded : List RecordedDeclaration} {fragments : List CompilationUnit} {workspace : Workspace}
  (assembled : model.AssembledFrom units recorded fragments workspace)
include assembled

/-- A class of a model stands for a class of the program. -/
theorem exists_class {id : ClassId} (has : model.parts.Has id) :
    ∃ index ∈ workspace.allocation.classes,
      workspace.program.classes.Holds index ∧
      position workspace.allocation.classes index = id := by
  have inside : id.value < workspace.allocation.classes.length := by
    rw [← Allocation.length_made assembled.made.classes]
    exact has
  obtain ⟨index, known, same⟩ := Allocation.exists_position assembled.covers.classes.nodup inside
  exact ⟨index, known, assembled.covers.classes.mem_iff.mp known, same⟩

/-- The properties of a class of a model are those that its class declares or inherits. -/
theorem mem_properties (known : index ∈ workspace.allocation.classes)
    {id : Model.PropertyId} :
    id ∈ model.properties
        (.klass (position workspace.allocation.classes index)) ↔
      ∃ property ∈ workspace.program.allProperties (.klass index),
        position workspace.allocation.properties property = id := by
  have known : workspace.allocation.HasClassifier (.klass index) := known
  have listed : model.properties
      (.klass (position workspace.allocation.classes index)) =
      (workspace.program.allProperties (.klass index)).map
        (position workspace.allocation.properties) :=
    (assembled.made.classifier known).properties
  rw [listed, List.mem_map]

/-- A property that a classifier has was made of the property of the program. -/
theorem propertyMade {classifier : ClassifierIndex} {property : PropertyIndex}
    (among : property ∈ workspace.program.allProperties classifier) :
    Assembly.PropertyMade workspace.program workspace.allocation property
      (model.parts.property
        (position workspace.allocation.properties property)) :=
  assembled.made.property (assembled.covers.properties.mem_iff.mpr
    (assembled.sound.coherent.holds_of_mem_allProperties among))

/-- What was assembled of a program without errors is well keyed. -/
theorem model_wellKeyed : model.WellKeyed where
  keyed id has stored := by
    obtain ⟨index, known, holds, rfl⟩ := assembled.exists_class has
    rw [assembled.made.isTransient_position known] at stored
    have rules := assembled.free.classRules holds
    simp only [Rules.classRules, Quiet.append] at rules
    obtain ⟨_, listed, isKey⟩ := Rules.exists_key_of_quiet rules.1.1.1 stored
    obtain ⟨property, among, rfl⟩ := List.mem_map.mp listed
    have made := assembled.propertyMade among
    refine List.ne_nil_of_mem (List.mem_filter.mpr
      ⟨(assembled.mem_properties known).mpr ⟨property, among, rfl⟩, ?_⟩)
    rw [made.has_eq, isKey]
  unmixed id has first isFirst second isSecond isId isKey := by
    obtain ⟨index, known, holds, rfl⟩ := assembled.exists_class has
    obtain ⟨firstIndex, amongFirst, rfl⟩ := (assembled.mem_properties known).mp isFirst
    obtain ⟨secondIndex, amongSecond, rfl⟩ := (assembled.mem_properties known).mp isSecond
    have rules := assembled.free.classRules holds
    simp only [Rules.classRules, Quiet.append] at rules
    rw [(assembled.propertyMade amongFirst).has_eq] at isId
    rw [(assembled.propertyMade amongSecond).has_eq] at isKey ⊢
    exact Rules.id_of_key_of_quiet rules.1.1.2 (List.mem_map_of_mem amongFirst)
      (List.mem_map_of_mem amongSecond) isId isKey

/-- An id of a transient class is inherited. -/
theorem inheritedIds {id : ClassId} (has : model.parts.Has id)
    (transient : (model.parts.klass id).isTransient = true) {property : Model.PropertyId}
    (listed : property ∈ model.properties (.klass id))
    (isId : (model.parts.property property).has .id = true) :
    (model.parts.property property).owner ≠ .klass id ∧
      model.Inherits (.klass id) (model.parts.property property).owner := by
  obtain ⟨index, known, holds, rfl⟩ := assembled.exists_class has
  obtain ⟨propertyIndex, among, rfl⟩ := (assembled.mem_properties known).mp listed
  have made := assembled.propertyMade among
  have knownClassifier : workspace.allocation.HasClassifier (.klass index) :=
    known
  obtain ⟨source, isSource, declared⟩ := List.mem_flatMap.mp (mem_of_mem_keepFirst among)
  have owned := (assembled.sound.coherent.of_mem_properties declared).2
  have inherits : workspace.program.Inherits (.klass index) source :=
    Program.conforms_iff.mp (Program.mem_propertySources.mp isSource)
  rw [made.owner, owned]
  constructor
  · intro same
    have same : workspace.allocation.classifierPosition (.klass index) =
        workspace.allocation.classifierPosition source := same.symm
    rw [Allocation.classifierPosition_inj knownClassifier] at same
    subst same
    have rules := assembled.free.classRules holds
    simp only [Rules.classRules, Quiet.append] at rules
    rw [assembled.made.isTransient_position known] at transient
    rw [made.has_eq] at isId
    exact Rules.not_id_of_quiet rules.1.2 transient declared isId
  · exact assembled.made.inherits_position assembled.covers assembled.sound knownClassifier
      inherits

/-- A marked end of a class of a model is an end that the class owns or inherits. -/
theorem exists_markedEnd (known : index ∈ workspace.allocation.classes)
    {modifier : Modifier} {id : Model.AssociationEndId}
    (marked : Assembly.markedEnd workspace.program workspace.allocation index modifier =
      .ok (some id)) :
    ∃ associationEnd owner,
      (workspace.program.associationEnds.get associationEnd).has modifier = true ∧
      associationEnd ∈ (workspace.program.classes.get owner).associationEnds ∧
      (model.parts.associationEnd id).owner =
        position workspace.allocation.classes owner ∧
      model.isSubclassOf (position workspace.allocation.classes index)
        (position workspace.allocation.classes owner) = true := by
  obtain ⟨associationEnd, among, has, isEnd, rfl⟩ := Assembly.markedEnd_eq_ok marked
  obtain ⟨owner, above, owns⟩ := Program.mem_allAssociationEnds among
  have owned := (assembled.sound.endsListed.of_mem_associationEnds owns).2
  exact ⟨associationEnd, owner, has, owns, (assembled.made.associationEnd isEnd).owner owner owned,
    assembled.made.isSubclassOf_position assembled.covers assembled.sound known above⟩

/-- Where a class has a version end and a versioned end, one of them is inherited. -/
theorem inheritedEnds {id : ClassId} (has : model.parts.Has id)
    {version versioned : Model.AssociationEndId}
    (isVersion : (model.parts.klass id).versionEnd = some version)
    (isVersioned : (model.parts.klass id).versionedEnd = some versioned) :
    ∃ inherited ∈ [version, versioned],
      (model.parts.associationEnd inherited).owner ≠ id ∧
      model.isSubclassOf id (model.parts.associationEnd inherited).owner = true := by
  obtain ⟨index, known, holds, rfl⟩ := assembled.exists_class has
  obtain ⟨first, second⟩ := assembled.made.markedEnds_position known
  rw [isVersion] at first
  rw [isVersioned] at second
  obtain ⟨versionIndex, versionOwner, marked, owns, ownerEq, below⟩ :=
    assembled.exists_markedEnd known first
  obtain ⟨versionedIndex, versionedOwner, markedToo, ownsToo, ownerEqToo, belowToo⟩ :=
    assembled.exists_markedEnd known second
  by_cases own : versionOwner = index
  · by_cases ownToo : versionedOwner = index
    · subst own ownToo
      have rules := assembled.free.classRules holds
      simp only [Rules.classRules, Quiet.append] at rules
      exact absurd markedToo (Rules.not_versioned_of_quiet rules.2 owns ownsToo marked)
    · refine ⟨versioned, by simp, ?_, by rw [ownerEqToo]; exact belowToo⟩
      rw [ownerEqToo]
      exact fun same => ownToo ((Allocation.position_inj known).mp same.symm).symm
  · refine ⟨version, by simp, ?_, by rw [ownerEq]; exact below⟩
    rw [ownerEq]
    exact fun same => own ((Allocation.position_inj known).mp same.symm).symm

end DomainModel.AssembledFrom

namespace Sample

open Syntax

/-- A class of which only subclasses have instances. -/
def abstractClass (name : String) (members : List Member) : Declaration :=
  .klass {
    toNode := .bare
    name := .bare name
    isUser := false
    abstraction := some ⟨.placeholder, none⟩
    superclass := none
    interfaces := []
    modifiers := []
    members }

/-- A version of a document is itself a document. It owns the versioned end and inherits the
version end. -/
def versions : List (String × SourceTree) := [
  ("archive", {
    package := ⟨.bare, "archive"⟩
    elements := [
      abstractClass "Document" [number "id" false [.key]],
      klass "DocumentVersion" (some "Document") [] [],
      .association {
        toNode := .bare
        name := .bare "DocumentHasVersion"
        source := ⟨.bare, .bare "document", .bare "Document", .oneToOne, [.bare .versioned], none⟩
        target := ⟨.bare, .bare "version", .bare "DocumentVersion", .oneToOne,
          [.bare .version, .bare .owned], none⟩
        relationship := .equal (.this "id") (.ofType "DocumentVersion.id") }] })]

/-- A draft is a document that is not stored; it inherits the id of documents. -/
def drafts : List (String × SourceTree) := [
  ("archive", {
    package := ⟨.bare, "archive"⟩
    elements := [
      abstractClass "Document" [number "id" false [.key, .id]],
      klass "Draft" (some "Document") [.transient] []] })]

/-- The versions have a model. The second class declares nothing and has both ends. -/
theorem versions_compile : ∃ compilation model, compile versions {} = .ok compilation ∧
    compilation.model = some model ∧ model.parts.Has (⟨1⟩ : ClassId) ∧
    (model.parts.klass ⟨1⟩).declaredProperties = [] ∧
    (model.parts.klass ⟨1⟩).versionEnd = some ⟨1⟩ ∧
    (model.parts.klass ⟨1⟩).versionedEnd = some ⟨0⟩ := by
  have seen : ((compile versions {}).toOption.bind (·.model)).map (fun model =>
      (model.parts.classes.length, (model.parts.klass ⟨1⟩).declaredProperties,
        (model.parts.klass ⟨1⟩).versionEnd, (model.parts.klass ⟨1⟩).versionedEnd)) =
      some (2, [], some ⟨1⟩, some ⟨0⟩) := by cbv
  obtain ⟨compilation, model, compiled, found, seen⟩ := exists_model_of_map_eq_some seen
  simp only [Prod.mk.injEq] at seen
  obtain ⟨two, others⟩ := seen
  exact ⟨compilation, model, compiled, found, Nat.lt_of_lt_of_eq Nat.one_lt_two two.symm, others⟩

/-- The drafts have a model. The second class is transient and its one property is an id. -/
theorem drafts_compile : ∃ compilation model, compile drafts {} = .ok compilation ∧
    compilation.model = some model ∧ model.parts.Has (⟨1⟩ : ClassId) ∧
    (model.parts.klass ⟨1⟩).isTransient = true ∧ model.properties (.klass ⟨1⟩) = [⟨0⟩] ∧
    (model.parts.property ⟨0⟩).has .id = true := by
  have seen : ((compile drafts {}).toOption.bind (·.model)).map (fun model =>
      (model.parts.classes.length, (model.parts.klass ⟨1⟩).isTransient,
        model.properties (.klass ⟨1⟩), (model.parts.property ⟨0⟩).has .id)) =
      some (2, true, [⟨0⟩], true) := by cbv
  obtain ⟨compilation, model, compiled, found, seen⟩ := exists_model_of_map_eq_some seen
  simp only [Prod.mk.injEq] at seen
  obtain ⟨two, others⟩ := seen
  exact ⟨compilation, model, compiled, found, Nat.lt_of_lt_of_eq Nat.one_lt_two two.symm, others⟩

end Sample

/-- In every model that is compiled, a class that is stored has a key, and no class has an id
beside a key that is not one. -/
theorem compile_wellKeyed {trees : List (String × Syntax.SourceTree)}
    {configuration : Configuration} {compilation : Compilation} {model : DomainModel}
    (compiled : compile trees configuration = .ok compilation)
    (found : compilation.model = some model) : model.WellKeyed := by
  obtain ⟨workspace, recorded, fragments, assembled, -⟩ :=
    exists_assembledFrom_of_compile compiled found
  exact assembled.model_wellKeyed

/-- The versions are well keyed, though the second class declares no property. -/
theorem compile_wellKeyed_versions : ∃ compilation model,
    compile Sample.versions {} = .ok compilation ∧ compilation.model = some model ∧
      (model.parts.klass ⟨1⟩).declaredProperties = [] ∧ model.WellKeyed := by
  obtain ⟨compilation, model, compiled, found, -, declared, -⟩ := Sample.versions_compile
  exact ⟨compilation, model, compiled, found, declared, compile_wellKeyed compiled found⟩

/-- In every model that is compiled, a class has a version end and a versioned end only if it
inherits one of them from a superclass. -/
theorem compile_markedEnds {trees : List (String × Syntax.SourceTree)}
    {configuration : Configuration} {compilation : Compilation} {model : DomainModel}
    (compiled : compile trees configuration = .ok compilation)
    (found : compilation.model = some model) {id : ClassId} (has : model.parts.Has id)
    {version versioned : Model.AssociationEndId}
    (isVersion : (model.parts.klass id).versionEnd = some version)
    (isVersioned : (model.parts.klass id).versionedEnd = some versioned) :
    ∃ inherited ∈ [version, versioned],
      (model.parts.associationEnd inherited).owner ≠ id ∧
      model.isSubclassOf id (model.parts.associationEnd inherited).owner = true := by
  obtain ⟨workspace, recorded, fragments, assembled, -⟩ :=
    exists_assembledFrom_of_compile compiled found
  exact assembled.inheritedEnds has isVersion isVersioned

/-- Of the two ends of a version of a document, one is inherited. -/
theorem compile_markedEnds_versions : ∃ compilation model,
    compile Sample.versions {} = .ok compilation ∧ compilation.model = some model ∧
      ∃ inherited ∈ [(⟨1⟩ : Model.AssociationEndId), ⟨0⟩],
        (model.parts.associationEnd inherited).owner ≠ ⟨1⟩ ∧
        model.isSubclassOf ⟨1⟩ (model.parts.associationEnd inherited).owner = true := by
  obtain ⟨compilation, model, compiled, found, has, -, isVersion, isVersioned⟩ :=
    Sample.versions_compile
  exact ⟨compilation, model, compiled, found,
    compile_markedEnds compiled found has isVersion isVersioned⟩

/-- A class can have a version end and a versioned end: that it inherits one of them is not
reported. -/
theorem compile_versions_both : ∃ compilation model,
    compile Sample.versions {} = .ok compilation ∧ compilation.model = some model ∧
      ∃ id : ClassId, model.parts.Has id ∧ (model.parts.klass id).versionEnd.isSome ∧
        (model.parts.klass id).versionedEnd.isSome := by
  obtain ⟨compilation, model, compiled, found, has, -, isVersion, isVersioned⟩ :=
    Sample.versions_compile
  exact ⟨compilation, model, compiled, found, ⟨1⟩, has, by rw [isVersion]; rfl,
    by rw [isVersioned]; rfl⟩

/-- In every model that is compiled, a transient class has no id but those that it inherits from
another classifier. -/
theorem compile_transientIds {trees : List (String × Syntax.SourceTree)}
    {configuration : Configuration} {compilation : Compilation} {model : DomainModel}
    (compiled : compile trees configuration = .ok compilation)
    (found : compilation.model = some model) {id : ClassId} (has : model.parts.Has id)
    (transient : (model.parts.klass id).isTransient = true) {property : Model.PropertyId}
    (listed : property ∈ model.properties (.klass id))
    (isId : (model.parts.property property).has .id = true) :
    (model.parts.property property).owner ≠ .klass id ∧
      model.Inherits (.klass id) (model.parts.property property).owner := by
  obtain ⟨workspace, recorded, fragments, assembled, -⟩ :=
    exists_assembledFrom_of_compile compiled found
  exact assembled.inheritedIds has transient listed isId

/-- The id of a draft is inherited. -/
theorem compile_transientIds_drafts : ∃ compilation model,
    compile Sample.drafts {} = .ok compilation ∧ compilation.model = some model ∧
      (model.parts.property ⟨0⟩).owner ≠ .klass ⟨1⟩ ∧
      model.Inherits (.klass ⟨1⟩) (model.parts.property ⟨0⟩).owner := by
  obtain ⟨compilation, model, compiled, found, has, transient, properties, isId⟩ :=
    Sample.drafts_compile
  have listed : ⟨0⟩ ∈ model.properties (.klass ⟨1⟩) := by
    rw [properties]
    exact List.mem_singleton_self _
  exact ⟨compilation, model, compiled, found,
    compile_transientIds compiled found has transient listed isId⟩

/-- A transient class can have an id: that it inherits one is not reported. -/
theorem compile_drafts_id : ∃ compilation model,
    compile Sample.drafts {} = .ok compilation ∧ compilation.model = some model ∧
      ∃ id : ClassId, model.parts.Has id ∧ (model.parts.klass id).isTransient = true ∧
        ∃ property ∈ model.properties (.klass id),
          (model.parts.property property).has .id = true := by
  obtain ⟨compilation, model, compiled, found, has, transient, properties, isId⟩ :=
    Sample.drafts_compile
  have listed : ⟨0⟩ ∈ model.properties (.klass ⟨1⟩) := by
    rw [properties]
    exact List.mem_singleton_self _
  exact ⟨compilation, model, compiled, found, ⟨1⟩, has, transient, ⟨0⟩, listed, isId⟩

end DomainLang
