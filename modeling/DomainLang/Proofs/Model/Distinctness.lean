import DomainLang.Proofs.Model.DeclarationOrder
import DomainLang.Proofs.Model.Integrity
import DomainLang.Proofs.Model.Typing

/-!
# Nothing in a model is repeated

Whatever must be unique in a program is unique in the model that is compiled of it: names of
declarations, of members and of parameters, modifiers, validations and clauses, paths of urls,
the classes of service groups, and names of siblings in projections. An error-free program has no
repetitions (`Workspace.Distinct`), and assembling keeps names and gives different ids to
different records.
-/

namespace DomainLang

namespace Model

namespace UrlSegment

/-- The text of a segment that is a constant. -/
def constant? : UrlSegment → Option String
  | constant text => some text
  | parameter _ => none

end UrlSegment

/-- A path of which only the constant segments are told apart. -/
def pathPattern (segments : List (Option String)) : String :=
  if segments.isEmpty then "/"
  else String.join (segments.map fun segment => segment.elim "/\x7b\x7d" ("/" ++ ·))

/-- The path without its parameters. -/
def Url.normalizedPath (record : Url) : String :=
  pathPattern (record.path.map UrlSegment.constant?)

mutual

/-- The lists of siblings below an element, at every level. -/
def ProjectionElement.levels : ProjectionElement → List (List ProjectionElement)
  | .property _ _ _ | .projection _ _ _ => []
  | .reference _ _ children => children :: levelsBelow children

/-- The lists of siblings below some elements, at every level. -/
def levelsBelow : List ProjectionElement → List (List ProjectionElement)
  | [] => []
  | element :: rest => element.levels ++ levelsBelow rest

end

/-- The lists of siblings of a projection, at every level. -/
def Projection.levels (projection : Projection) : List (List ProjectionElement) :=
  projection.children :: levelsBelow projection.children

end Model

namespace DomainModel

open Model

/-- The ends that a classifier owns; only classes have some. -/
def ownedEnds (model : DomainModel) : ClassifierId → List AssociationEndId
  | .interface _ => []
  | .klass id => (model.parts.klass id).associationEnds

/-- The names of everything that a classifier declares or owns. -/
def memberNames (model : DomainModel) (id : ClassifierId) : List String :=
  (model.declaredProperties id).map (fun property => (model.parts.property property).name) ++
    (model.endSignatures id).map (fun signature => (model.parts.endSignature signature).name) ++
    (model.ownedEnds id).map fun associationEnd => (model.parts.associationEnd associationEnd).name

/-- Nothing that must be unique is repeated. -/
structure Distinct (model : DomainModel) : Prop where
  names : (model.parts.topLevelByKind.map fun id => (model.parts.info id).name).Nodup
  members : ∀ id, model.parts.HasClassifier id → (model.memberNames id).Nodup
  classifierModifiers : ∀ id, model.parts.HasClassifier id → (model.modifiers id).Nodup
  interfaces : ∀ id, model.parts.HasClassifier id → (model.interfaces id).Nodup
  propertyModifiers : ∀ property ∈ model.parts.properties, property.modifiers.Nodup
  validations : ∀ property ∈ model.parts.properties, (property.validations.map (·.kind)).Nodup
  signatureModifiers : ∀ signature ∈ model.parts.endSignatures, signature.modifiers.Nodup
  endModifiers : ∀ associationEnd ∈ model.parts.associationEnds, associationEnd.modifiers.Nodup
  literals : ∀ enumeration ∈ model.parts.enumerations, (enumeration.literals.map (·.name)).Nodup
  prettyNames : ∀ enumeration ∈ model.parts.enumerations,
    (enumeration.literals.filterMap (·.prettyName)).Nodup
  userClass : (model.parts.classes.filter (·.isUser)).length ≤ 1
  groupClasses : (model.parts.serviceGroups.map (·.klass)).Nodup
  urls : ∀ group ∈ model.parts.serviceGroups,
    (group.urls.map fun id => (model.parts.url id).normalizedPath).Nodup
  parameters : ∀ url ∈ model.parts.urls,
    (url.parameters.map fun id => (model.parts.parameter id).name).Nodup
  clauses : ∀ service ∈ model.parts.services, (service.clauses.map (·.kind)).Nodup
  /-- Siblings in a projection have different names, at every level. -/
  siblings : ∀ projection ∈ model.parts.projections, ∀ level ∈ projection.levels,
    (level.map (·.name)).Nodup

end DomainModel

namespace Workspace

/-- What the rules about repetitions say, rule by rule. -/
structure Distinct (workspace : Workspace) : Prop where
  users : (workspace.program.classes.records.filter (·.isUser)).length ≤ 1
  members : ∀ classifier, workspace.program.HoldsClassifier classifier →
    ((Uniqueness.memberNames workspace.program classifier).map (·.2.name)).Nodup
  classifierModifiers : ∀ classifier, workspace.program.HoldsClassifier classifier →
    ((workspace.program.classifier classifier).modifiers.map (·.modifier)).Nodup
  interfaces : ∀ classifier, workspace.program.HoldsClassifier classifier →
    ((workspace.program.classifier classifier).declaredInterfaces.map (·.name)).Nodup
  propertyModifiers : ∀ property ∈ workspace.program.properties.records,
    (property.declaration.modifiers.map (·.modifier)).Nodup
  validations : ∀ property ∈ workspace.program.properties.records,
    (property.declaration.validations.map (·.kind)).Nodup
  signatureModifiers : ∀ signature ∈ workspace.program.endSignatures.records,
    (signature.declaration.modifiers.map (·.modifier)).Nodup
  endModifiers : ∀ associationEnd ∈ workspace.program.associationEnds.records,
    (associationEnd.declaration.modifiers.map (·.modifier)).Nodup
  literals : ∀ enumeration ∈ workspace.program.enumerations.records,
    (enumeration.literals.map (·.name.name)).Nodup
  prettyNames : ∀ enumeration ∈ workspace.program.enumerations.records,
    (enumeration.literals.filterMap (·.prettyName)).Nodup
  groupClasses : ((workspace.program.serviceGroups.records.filter fun group =>
      (workspace.registry.classes.find group.className.name).isResolved).map fun group =>
        workspace.registry.classes.find group.className.name).Nodup
  urls : ∀ group ∈ workspace.program.serviceGroups.records,
    (group.urls.map fun url => (workspace.program.urls.get url).declaration.normalizedPath).Nodup
  clauses : ∀ group ∈ workspace.program.serviceGroups.records, ∀ url ∈ group.urls,
    ∀ service ∈ (workspace.program.urls.get url).services,
      ((workspace.program.services.get service).clauses.map (·.kind)).Nodup
  siblings : ∀ projection ∈ workspace.program.projections.records,
    Quiet (Uniqueness.elements projection.header.unit projection.header.name.name
      projection.children)

/-- Without errors nothing is repeated. -/
theorem ErrorFree.distinct {workspace : Workspace} (free : workspace.ErrorFree) :
    workspace.Distinct := by
  simp only [ErrorFree, findings, Uniqueness.findings, Uniqueness.memberDetails, Quiet.append,
    Quiet.flatMap] at free
  obtain ⟨⟨⟨⟨⟨⟨⟨⟨⟨-, users⟩, classifiers⟩, ⟨properties, signatures⟩, ends⟩, enumerations⟩,
    groupClasses⟩, groups⟩, projections⟩, -⟩, -⟩ := free
  have ofClassifier (classifier : ClassifierIndex)
      (holds : workspace.program.HoldsClassifier classifier) :=
    classifiers classifier (Program.mem_classifiers.mpr holds)
  simp only [Uniqueness.classifier, Quiet.append] at ofClassifier
  simp only [Uniqueness.property, Quiet.append] at properties
  simp only [Uniqueness.literals, List.map_append, Quiet.append] at enumerations
  simp only [Uniqueness.group, Quiet.append, Quiet.flatMap] at groups
  constructor
  case users =>
    rw [Uniqueness.userClasses] at users
    split at users
    · next few => omega
    · have none := users.map_eq_nil fun _ => rfl
      simp [none]
  case members =>
    exact fun classifier holds =>
      (ofClassifier classifier holds).1.1.1.1.nodup_of_repeated fun _ => rfl
  case classifierModifiers =>
    exact fun classifier holds =>
      (ofClassifier classifier holds).1.1.1.2.nodup_of_repeated fun _ => rfl
  case interfaces =>
    exact fun classifier holds =>
      (ofClassifier classifier holds).1.1.2.nodup_of_repeated fun _ => rfl
  case propertyModifiers =>
    exact fun property member => (properties property member).1.nodup_of_repeated fun _ => rfl
  case validations =>
    exact fun property member => (properties property member).2.nodup_of_repeated fun _ => rfl
  case signatureModifiers =>
    exact fun signature member => (signatures signature member).nodup_of_repeated fun _ => rfl
  case endModifiers =>
    exact fun associationEnd member => (ends associationEnd member).nodup_of_repeated fun _ => rfl
  case literals =>
    intro enumeration member
    simpa [Function.comp_def] using (enumerations enumeration member).1.nodup_of_repeated
      fun _ => rfl
  case prettyNames =>
    intro enumeration member
    simpa [List.map_filterMap, Function.comp_def] using
      (enumerations enumeration member).2.nodup_of_repeated fun _ => rfl
  case groupClasses => exact groupClasses.nodup_of_repeated fun _ => rfl
  case urls =>
    intro group member
    simpa [Function.comp_def] using (groups group member).1.nodup_of_repeated fun _ => rfl
  case clauses =>
    intro group member url isUrl service isService
    exact ((groups group member).2 _ (List.mem_map_of_mem isUrl)).2 service isService
      |>.nodup_of_repeated fun _ => rfl
  case siblings => exact projections

end Workspace

/-- An order that has every record once has them all in some order. -/
theorem Arena.Enumerates.map_perm {kind : RecordKind} {α β : Type} [Inhabited α]
    {arena : Arena kind α} {order : List (Index kind)} (enumerates : arena.Enumerates order)
    (field : α → β) :
    (order.map fun index => field (arena.get index)).Perm (arena.records.map field) := by
  have perm : order.Perm arena.indices :=
    (List.perm_ext_iff_of_nodup enumerates.nodup arena.nodup_indices).mpr fun index => by
      rw [enumerates.mem_iff, Arena.mem_indices]
  rw [arena.records_eq_map_get, List.map_map]
  exact perm.map _

/-- The normalized path is that of the pattern of the path. -/
theorem Syntax.Url.normalizedPath_eq (url : Syntax.Url) :
    url.normalizedPath = Model.pathPattern (url.path.map Syntax.UrlSegment.constant?) := by
  simp only [normalizedPath, pathText, Model.pathPattern, List.isEmpty_map, List.map_map]
  congr 3
  funext segment
  cases segment with
  | constant name => rfl
  | parameter declaration => rfl

namespace Assembly

open Allocation (position)

variable {program : Program} {allocation : Allocation} {model : DomainModel}

/-- A url of a model has the normalized path that is written. -/
theorem UrlMade.normalizedPath {index : UrlIndex} {record : Model.Url}
    (made : UrlMade program allocation index record)
    (written : Program.PathWritten (program.urls.get index)) :
    record.normalizedPath = (program.urls.get index).declaration.normalizedPath := by
  have kept : record.path.map Model.UrlSegment.constant? =
      (program.urls.get index).path.map Resolved.UrlSegment.constant? := by
    have path := mapM_eq_ok.mp made.path
    generalize (program.urls.get index).path = segments, record.path = results at path ⊢
    induction path with
    | nil => rfl
    | @cons segment result _ _ here _ ih =>
      rw [List.map_cons, List.map_cons, ih]
      congr 1
      cases segment with
      | constant text =>
        cases here
        rfl
      | parameter parameter =>
        simp only [urlSegment, bind_eq_ok, pure_eq_ok] at here
        obtain ⟨_, -, rfl⟩ := here
        rfl
  rw [Model.Url.normalizedPath, kept, written, Syntax.Url.normalizedPath_eq]

/-- Elements of projections keep their names. -/
theorem name_projectionElement {element : Resolved.ProjectionElement}
    {result : Model.ProjectionElement}
    (assembled : projectionElement allocation element = .ok result) :
    result.name = element.name.name := by
  cases element <;> simp only [projectionElement, bind_eq_ok, pure_eq_ok] at assembled
  case projection =>
    obtain ⟨_, -, _, -, _, -, rfl⟩ := assembled
    rfl
  all_goals
    obtain ⟨_, -, _, -, rfl⟩ := assembled
    rfl

theorem names_projectionElements {elements : List Resolved.ProjectionElement}
    {results : List Model.ProjectionElement}
    (assembled : projectionElements allocation elements = .ok results) :
    results.map (·.name) = elements.map (·.name.name) := by
  induction elements generalizing results with
  | nil =>
    cases assembled
    rfl
  | cons element rest ih =>
    simp only [projectionElements, bind_eq_ok, pure_eq_ok] at assembled
    obtain ⟨first, assembledFirst, others, assembledRest, rfl⟩ := assembled
    rw [List.map_cons, List.map_cons, name_projectionElement assembledFirst,
      ih assembledRest]

mutual

/-- Siblings whose names are not repeated in the program have different names in the model, at
every level. -/
theorem distinct_levels (unit : UnitId) (owner : String)
    (elements : List Resolved.ProjectionElement) (results : List Model.ProjectionElement)
    (quiet : Quiet (Uniqueness.elements unit owner elements))
    (assembled : projectionElements allocation elements = .ok results) :
    ∀ level ∈ results :: Model.levelsBelow results, (level.map (·.name)).Nodup := by
  rw [Uniqueness.elements, Quiet.append] at quiet
  rw [List.forall_mem_cons, names_projectionElements assembled]
  exact ⟨quiet.1.nodup_of_repeated fun _ => rfl,
    distinct_levelsBelow unit owner elements results quiet.2 assembled⟩
termination_by (sizeOf elements, 1)

theorem distinct_levelsBelow (unit : UnitId) (owner : String)
    (elements : List Resolved.ProjectionElement) (results : List Model.ProjectionElement)
    (quiet : Quiet (Uniqueness.nestedElements unit owner elements))
    (assembled : projectionElements allocation elements = .ok results) :
    ∀ level ∈ Model.levelsBelow results, (level.map (·.name)).Nodup := by
  cases elements with
  | nil =>
    cases assembled
    exact nofun
  | cons element rest =>
    simp only [projectionElements, bind_eq_ok, pure_eq_ok] at assembled
    obtain ⟨first, assembledFirst, others, assembledRest, rfl⟩ := assembled
    rw [Model.levelsBelow, List.forall_mem_append]
    cases element with
    | property name header found =>
      simp only [Uniqueness.nestedElements] at quiet
      simp only [projectionElement, bind_eq_ok, pure_eq_ok] at assembledFirst
      obtain ⟨_, -, _, -, rfl⟩ := assembledFirst
      exact ⟨nofun, distinct_levelsBelow unit owner rest others quiet assembledRest⟩
    | projection name found projectionName projection =>
      simp only [Uniqueness.nestedElements] at quiet
      simp only [projectionElement, bind_eq_ok, pure_eq_ok] at assembledFirst
      obtain ⟨_, -, _, -, _, -, rfl⟩ := assembledFirst
      exact ⟨nofun, distinct_levelsBelow unit owner rest others quiet assembledRest⟩
    | reference name found children =>
      rw [Uniqueness.nestedElements, Quiet.append] at quiet
      simp only [projectionElement, bind_eq_ok, pure_eq_ok] at assembledFirst
      obtain ⟨_, -, below, assembledChildren, rfl⟩ := assembledFirst
      exact ⟨distinct_levels unit _ children below quiet.1 assembledChildren,
        distinct_levelsBelow unit owner rest others quiet.2 assembledRest⟩
termination_by (sizeOf elements, 0)

end

end Assembly

namespace DomainModel.AssembledFrom

open Allocation (position)

variable {model : DomainModel} {units : List CompilationUnit}
  {recorded : List RecordedDeclaration} {fragments : List CompilationUnit} {workspace : Workspace}
  (assembled : model.AssembledFrom units recorded fragments workspace)
include assembled

/-- No two elements have one name. -/
theorem distinct_names :
    (model.parts.topLevelByKind.map fun id => (model.parts.info id).name).Nodup := by
  have perm := assembled.elements_perm.map fun id => (model.parts.info id).name
  rw [List.map_map] at perm
  refine perm.nodup_iff.mp ?_
  have names : (recorded.map Prod.snd).map
      ((fun id => (model.parts.info id).name) ∘ elementOf workspace) =
        (recorded.map Prod.snd).map workspace.program.nameOf := by
    apply List.map_congr_left
    intro index member
    rw [Function.comp_apply, assembled.info_elementOf member]
    rfl
  rw [names]
  exact assembled.nodup_names

/-- A classifier has the members of its record, under their names. -/
theorem memberNames_position {classifier : ClassifierIndex}
    (holds : workspace.program.HoldsClassifier classifier) :
    model.memberNames (workspace.allocation.classifierPosition classifier) =
      (Uniqueness.memberNames workspace.program classifier).map (·.2.name) := by
  have coherent := assembled.sound.coherent
  have record := assembled.made.classifier (assembled.covers.hasClassifier.mpr holds)
  simp only [memberNames, Uniqueness.memberNames, List.map_append, List.map_map,
    record.declaredProperties, record.endSignatures]
  congr 1
  · congr 1
    · apply List.map_congr_left
      intro property member
      have held := ((coherent.properties.mem_listed holds id).mp member).1
      exact (assembled.made.property (assembled.covers.properties.mem_iff.mpr held)).name
    · apply List.map_congr_left
      intro signature member
      have held := ((coherent.endSignatures.mem_listed holds id).mp member).1
      exact (assembled.made.endSignature (assembled.covers.endSignatures.mem_iff.mpr held)).name
  · cases classifier with
    | interface index => rfl
    | klass index =>
      have klass := assembled.made.klass (assembled.covers.classes.mem_iff.mpr holds)
      simp only [ownedEnds, Allocation.classifierPosition, klass.associationEnds, List.map_map]
      apply List.map_congr_left
      intro associationEnd member
      have held := (assembled.sound.endsListed.of_mem_associationEnds member).1
      exact (assembled.made.associationEnd
        (assembled.covers.associationEnds.mem_iff.mpr held)).name

/-- Interfaces with different names are different. -/
theorem distinct_interfaces {classifier : ClassifierIndex}
    (holds : workspace.program.HoldsClassifier classifier) :
    (model.interfaces (workspace.allocation.classifierPosition classifier)).Nodup := by
  have has := assembled.covers.hasClassifier.mpr holds
  have resolved : (workspace.program.classifier classifier).resolvedInterfaces =
      ((workspace.program.classifier classifier).declaredInterfaces.map (·.name)).filterMap
        fun name => (workspace.registry.interfaces.find name).value? := by
    rw [Resolved.Classifier.resolvedInterfaces, assembled.declarations.interfaces_eq holds,
      Registry.findInterfaces, List.filterMap_map, List.filterMap_map]
    rfl
  have distinct : (workspace.program.classifier classifier).resolvedInterfaces.Nodup := by
    rw [resolved]
    refine (assembled.free.distinct.interfaces classifier holds).filterMap ?_
    intro first second interface isFirst isSecond
    rw [Option.mem_def, Resolution.value?_eq_some] at isFirst isSecond
    rw [← (assembled.names.interfaces.of_find isFirst).2,
      (assembled.names.interfaces.of_find isSecond).2]
  rw [assembled.made.interfaces_eq has (assembled.sound.lookedUp classifier holds)]
  refine List.Nodup.map_on ?_ distinct
  intro first isFirst second _ same
  rw [resolved, List.mem_filterMap] at isFirst
  obtain ⟨name, -, found⟩ := isFirst
  have held := (assembled.names.interfaces.of_find (Resolution.value?_eq_some.mp found)).1
  exact (Allocation.position_inj (assembled.covers.interfaces.mem_iff.mpr held)).mp same

/-- A user class is the only one. -/
theorem atMostOne_userClass : (model.parts.classes.filter (·.isUser)).length ≤ 1 := by
  have flags : model.parts.classes.map (·.isUser) =
      workspace.allocation.classes.map fun index =>
        (workspace.program.classes.get index).isUser := by
    refine map_eq_of_mapM assembled.made.classes fun index _ result made => ?_
    simp only [Assembly.klass, bind_eq_ok, pure_eq_ok] at made
    obtain ⟨_, -, _, -, _, -, _, -, _, -, _, -, _, -, _, -, rfl⟩ := made
    rfl
  have perm := assembled.covers.classes.map_perm (·.isUser)
  rw [← flags] at perm
  have counted {α : Type} (items : List α) (flag : α → Bool) :
      (items.filter flag).length = (items.map flag).count true := by
    rw [← List.countP_eq_length_filter, List.count, List.countP_map]
    simp [Function.comp_def]
  rw [counted, perm.count_eq, ← counted]
  exact assembled.free.distinct.users

/-- Service groups are on different classes. -/
theorem distinct_groupClasses : (model.parts.serviceGroups.map (·.klass)).Nodup := by
  -- Every class is found, so that no group is left out of the rule.
  have found (index : ServiceGroupIndex)
      (holds : workspace.program.serviceGroups.Holds index) : ∃ klass,
      workspace.registry.classes.find
        (workspace.program.serviceGroups.get index).className.name = .resolved klass ∧
      workspace.program.classes.Holds klass ∧
      (workspace.program.serviceGroups.get index).klass = some (.resolved klass) := by
    obtain ⟨klass, resolved, held⟩ := assembled.sound.groups index holds
    have looked := assembled.references.groups index holds
    rw [resolved, Option.some.injEq] at looked
    exact ⟨klass, looked.symm, held, resolved⟩
  have distinct := assembled.free.distinct.groupClasses
  rw [List.filter_eq_self.mpr] at distinct
  · have perm := assembled.covers.serviceGroups.map_perm fun group =>
      workspace.registry.classes.find group.className.name
    have classes := perm.nodup_iff.mpr distinct
    have ids : model.parts.serviceGroups.map (fun group => Resolution.resolved group.klass) =
        workspace.allocation.serviceGroups.map fun index =>
          (workspace.registry.classes.find
            (workspace.program.serviceGroups.get index).className.name).map
              (position workspace.allocation.classes) := by
      refine map_eq_of_mapM assembled.made.serviceGroups fun index known result made => ?_
      obtain ⟨klass, looked, -, resolved⟩ :=
        found index (assembled.covers.serviceGroups.mem_iff.mp known)
      simp only [Assembly.serviceGroup, bind_eq_ok, pure_eq_ok, resolved, Option.getD_some,
        Assembly.resolved_eq_ok, Resolution.resolved.injEq, Allocation.idOf_eq_ok] at made
      obtain ⟨_, rfl, _, ⟨-, rfl⟩, _, -, rfl⟩ := made
      rw [looked]
      rfl
    refine List.Nodup.of_map Resolution.resolved ?_
    rw [List.map_map, Function.comp_def, ids]
    have apart := List.Nodup.map_on (f := Resolution.map
      (position workspace.allocation.classes)) ?_ classes
    · rw [List.map_map] at apart
      exact apart
    · intro first isFirst second isSecond same
      obtain ⟨one, oneKnown, rfl⟩ := List.mem_map.mp isFirst
      obtain ⟨other, otherKnown, rfl⟩ := List.mem_map.mp isSecond
      obtain ⟨klass, looked, held, -⟩ :=
        found one (assembled.covers.serviceGroups.mem_iff.mp oneKnown)
      obtain ⟨otherClass, otherLooked, -, -⟩ :=
        found other (assembled.covers.serviceGroups.mem_iff.mp otherKnown)
      rw [looked, otherLooked] at same ⊢
      rw [(Allocation.position_inj (assembled.covers.classes.mem_iff.mpr held)).mp
        (Resolution.resolved.inj same)]
  · intro group member
    obtain ⟨index, holds, rfl⟩ := Arena.mem_records.mp member
    obtain ⟨klass, looked, -, -⟩ := found index holds
    rw [looked]
    rfl

/-- A property has each modifier and each kind of validation once. -/
theorem distinct_property {property : Model.Property} (member : property ∈ model.parts.properties) :
    property.modifiers.Nodup ∧ (property.validations.map (·.kind)).Nodup := by
  obtain ⟨index, known, rfl⟩ := Allocation.exists_mem_made assembled.covers.properties.nodup
    assembled.made.properties member
  have record := assembled.made.property known
  have recorded := Arena.get_mem_records (assembled.covers.properties.mem_iff.mp known)
  rw [Model.Parts.property] at record
  rw [record.modifiers, record.validations, List.map_map]
  exact ⟨assembled.free.distinct.propertyModifiers _ recorded,
    assembled.free.distinct.validations _ recorded⟩

/-- An enumeration has each name and each pretty name once. -/
theorem distinct_enumeration {enumeration : Model.Enumeration}
    (member : enumeration ∈ model.parts.enumerations) :
    (enumeration.literals.map (·.name)).Nodup ∧
      (enumeration.literals.filterMap (·.prettyName)).Nodup := by
  rw [assembled.made.enumerations, List.mem_map] at member
  obtain ⟨index, known, rfl⟩ := member
  have recorded := Arena.get_mem_records (assembled.covers.enumerations.mem_iff.mp known)
  simpa [Assembly.enumeration, List.filterMap_map, Function.comp_def] using
    And.intro (assembled.free.distinct.literals _ recorded)
      (assembled.free.distinct.prettyNames _ recorded)

/-- The urls of a service group have different paths. -/
theorem distinct_urls {group : Model.ServiceGroup} (member : group ∈ model.parts.serviceGroups) :
    (group.urls.map fun url => (model.parts.url url).normalizedPath).Nodup := by
  obtain ⟨index, known, rfl⟩ := Allocation.exists_mem_made assembled.covers.serviceGroups.nodup
    assembled.made.serviceGroups member
  have coherent := assembled.sound.coherent
  have holds := assembled.covers.serviceGroups.mem_iff.mp known
  have record := assembled.made.serviceGroup known
  rw [Model.Parts.serviceGroup] at record
  rw [record.urls, List.map_map]
  have paths := assembled.free.distinct.urls _ (Arena.get_mem_records holds)
  refine (List.map_congr_left fun url listed => ?_) ▸ paths
  have held := ((coherent.urls.mem_listed holds (by simp)).mp listed).1
  exact ((assembled.made.url (assembled.covers.urls.mem_iff.mpr held)).normalizedPath
    (coherent.pathsWritten url held (by simp))).symm

/-- The parameters of a url have different names. -/
theorem distinct_parameters {url : Model.Url} (member : url ∈ model.parts.urls) :
    (url.parameters.map fun parameter => (model.parts.parameter parameter).name).Nodup := by
  obtain ⟨index, known, rfl⟩ := Allocation.exists_mem_made assembled.covers.urls.nodup
    assembled.made.urls member
  have holds := assembled.covers.urls.mem_iff.mp known
  have record := assembled.made.url known
  rw [Model.Parts.url] at record
  rw [record.parameters, List.map_map]
  have names := assembled.parametersApart assembled.free holds
  refine (List.map_congr_left fun parameter listed => ?_) ▸ names
  have held := ((assembled.sound.coherent.parameters.mem_listed holds (by simp)).mp listed).1
  exact (assembled.made.parameter (assembled.covers.parameters.mem_iff.mpr held)).name.symm

/-- A service has each kind of clause once. -/
theorem distinct_clauses {service : Model.Service} (member : service ∈ model.parts.services) :
    (service.clauses.map (·.kind)).Nodup := by
  obtain ⟨index, known, rfl⟩ :=
    assembled.made.exists_mem_services assembled.covers.services.nodup member
  have coherent := assembled.sound.coherent
  have holds := assembled.covers.services.mem_iff.mp known
  have heldUrl := coherent.services.held_owner index holds
  have heldGroup := coherent.urls.held_owner _ heldUrl
  have kinds : (model.parts.service
      (position workspace.allocation.services index)).clauses.map (·.kind) =
      (workspace.program.services.get index).clauses.map (·.kind) := by
    refine map_eq_of_mapM (assembled.made.service known).clauses fun clause _ result made => ?_
    simp only [Assembly.clause, bind_eq_ok, pure_eq_ok] at made
    obtain ⟨_, -, _, -, rfl⟩ := made
    rfl
  rw [kinds]
  exact assembled.free.distinct.clauses _ (Arena.get_mem_records heldGroup) _
    ((coherent.urls.mem_listed heldGroup (by simp)).mpr ⟨heldUrl, rfl⟩) index
    ((coherent.services.mem_listed heldUrl (by simp)).mpr ⟨holds, rfl⟩)

/-- What was assembled of a program without errors has no repetitions. -/
theorem model_distinct : model.Distinct := by
  have distinct := assembled.free.distinct
  have covers := assembled.covers
  have made := assembled.made
  constructor
  case names => exact assembled.distinct_names
  case members =>
    intro id has
    obtain ⟨classifier, known, rfl⟩ := made.exists_classifier covers has
    rw [assembled.memberNames_position (covers.hasClassifier.mp known)]
    exact distinct.members classifier (covers.hasClassifier.mp known)
  case classifierModifiers =>
    intro id has
    obtain ⟨classifier, known, rfl⟩ := made.exists_classifier covers has
    rw [(made.classifier known).modifiers]
    exact distinct.classifierModifiers classifier (covers.hasClassifier.mp known)
  case interfaces =>
    intro id has
    obtain ⟨classifier, known, rfl⟩ := made.exists_classifier covers has
    exact assembled.distinct_interfaces (covers.hasClassifier.mp known)
  case propertyModifiers => exact fun _ member => (assembled.distinct_property member).1
  case validations => exact fun _ member => (assembled.distinct_property member).2
  case signatureModifiers =>
    intro signature member
    obtain ⟨index, known, rfl⟩ :=
      Allocation.exists_mem_made covers.endSignatures.nodup made.endSignatures member
    have record := made.endSignature known
    rw [Model.Parts.endSignature] at record
    rw [record.modifiers]
    exact distinct.signatureModifiers _
      (Arena.get_mem_records (covers.endSignatures.mem_iff.mp known))
  case endModifiers =>
    intro associationEnd member
    obtain ⟨index, known, rfl⟩ :=
      made.exists_mem_associationEnds covers.associationEnds.nodup member
    rw [(made.associationEnd known).modifiers]
    exact distinct.endModifiers _
      (Arena.get_mem_records (covers.associationEnds.mem_iff.mp known))
  case literals => exact fun _ member => (assembled.distinct_enumeration member).1
  case prettyNames => exact fun _ member => (assembled.distinct_enumeration member).2
  case userClass => exact assembled.atMostOne_userClass
  case groupClasses => exact assembled.distinct_groupClasses
  case urls => exact fun _ member => assembled.distinct_urls member
  case parameters => exact fun _ member => assembled.distinct_parameters member
  case clauses => exact fun _ member => assembled.distinct_clauses member
  case siblings =>
    intro projection member
    obtain ⟨index, known, rfl⟩ := made.exists_mem_projections covers.projections.nodup member
    have quiet := distinct.siblings _
      (Arena.get_mem_records (covers.projections.mem_iff.mp known))
    exact Assembly.distinct_levels _ _ _ _ quiet (made.projection known).children

end DomainModel.AssembledFrom

/-- Nothing that must be unique is repeated in a model that is compiled. -/
theorem compile_distinct {trees : List (String × Syntax.SourceTree)}
    {configuration : Configuration} {compilation : Compilation} {model : DomainModel}
    (compiled : compile trees configuration = .ok compilation)
    (found : compilation.model = some model) : model.Distinct := by
  obtain ⟨workspace, recorded, fragments, assembled, -⟩ :=
    exists_assembledFrom_of_compile compiled found
  exact assembled.model_distinct

/-- The model of the documents has two ends that belong to one class, a projection and a service
with two clauses, and nothing is repeated. -/
theorem compile_distinct_documents : ∃ compilation model,
    compile Sample.trees {} = .ok compilation ∧ compilation.model = some model ∧
      model.parts.associationEnds.length = 2 ∧ model.parts.projections.length = 1 ∧
      model.parts.services.map (·.clauses.length) = [2] ∧ model.Distinct := by
  obtain ⟨compilation, model, compiled, found, ends, projections, clauses, -⟩ := Sample.compiles
  exact ⟨compilation, model, compiled, found, ends, projections, clauses,
    compile_distinct compiled found⟩

end DomainLang
