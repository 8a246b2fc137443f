import DomainLang.Proofs.Assembly.Allocation

/-!
# What is assembled of a program

`Assembly.Made` says that every list of records of a model was made record by record in the
order of the ids. So what stands at the id of a record was made of that record, and the ids that
it stores are those of the records it names. There is one lemma for what later modules read in
records of each kind.
-/

namespace DomainLang

open Resolved

namespace Allocation

/-- The id that a classifier gets. -/
def classifierPosition (allocation : Allocation) : ClassifierIndex → Model.ClassifierId
  | .interface index => .interface (position allocation.interfaces index)
  | .klass index => .klass (position allocation.classes index)

/-- Whether a classifier has an id. -/
def HasClassifier (allocation : Allocation) : ClassifierIndex → Prop
  | .interface index => index ∈ allocation.interfaces
  | .klass index => index ∈ allocation.classes

variable {allocation : Allocation}

theorem classifierId_eq_ok {classifier : ClassifierIndex} {id : Model.ClassifierId} :
    allocation.classifierId classifier = .ok id ↔
      allocation.HasClassifier classifier ∧ allocation.classifierPosition classifier = id := by
  cases classifier <;>
    simp only [classifierId, HasClassifier, classifierPosition, bind_eq_ok, pure_eq_ok,
      idOf_eq_ok, and_assoc, exists_and_left, exists_eq_left']

/-- Classifiers of different indices have different ids. -/
theorem classifierPosition_inj {first second : ClassifierIndex}
    (has : allocation.HasClassifier first) :
    allocation.classifierPosition first = allocation.classifierPosition second ↔
      first = second := by
  cases first <;> cases second <;> simp only [classifierPosition, reduceCtorEq,
    Model.ClassifierId.interface.injEq, Model.ClassifierId.klass.injEq,
    ClassifierIndex.interface.injEq, ClassifierIndex.klass.injEq] <;> exact position_inj has

theorem Covers.hasClassifier {program : Program} (covers : allocation.Covers program)
    {classifier : ClassifierIndex} :
    allocation.HasClassifier classifier ↔ program.HoldsClassifier classifier := by
  cases classifier with
  | interface index => exact covers.interfaces.mem_iff
  | klass index => exact covers.classes.mem_iff

end Allocation

namespace DomainModel

open Model

/-- The properties that a classifier declares. -/
def declaredProperties (model : DomainModel) : ClassifierId → List PropertyId
  | .interface id => (model.parts.interface id).declaredProperties
  | .klass id => (model.parts.klass id).declaredProperties

/-- The end signatures that a classifier declares. -/
def endSignatures (model : DomainModel) : ClassifierId → List EndSignatureId
  | .interface id => (model.parts.interface id).endSignatures
  | .klass id => (model.parts.klass id).endSignatures

def modifiers (model : DomainModel) : ClassifierId → List Modifier
  | .interface id => (model.parts.interface id).modifiers
  | .klass id => (model.parts.klass id).modifiers

/-- The interfaces that a classifier names. -/
def interfaces (model : DomainModel) : ClassifierId → List InterfaceId
  | .interface id => (model.parts.interface id).interfaces
  | .klass id => (model.parts.klass id).interfaces

end DomainModel

namespace Assembly

open Allocation (position)

/-- A foreign key with ids in place of indices. -/
def keyPosition (allocation : Allocation) (key : Resolved.ForeignKey) : Model.ForeignKey where
  associationEnd := position allocation.associationEnds key.associationEnd
  foreignKey := position allocation.properties key.foreignKey
  key := position allocation.properties key.key

/-- The records of a model are made of the records of a program, one by one. -/
structure Made (program : Program) (allocation : Allocation) (parts : Model.Parts) : Prop where
  enumerations : parts.enumerations =
    allocation.enumerations.map fun index => enumeration (program.enumerations.get index)
  interfaces : allocation.interfaces.mapM (interface program allocation) = .ok parts.interfaces
  classes : allocation.classes.mapM (klass program allocation) = .ok parts.classes
  properties : allocation.properties.mapM (property program allocation) = .ok parts.properties
  endSignatures :
    allocation.endSignatures.mapM (endSignature program allocation) = .ok parts.endSignatures
  associations : ∃ pairs,
    allocation.associations.mapM (association program allocation) = .ok pairs ∧
      parts.associations = pairs.map (·.1) ∧ parts.foreignKeys = pairs.flatMap (·.2)
  associationEnds :
    allocation.associationEnds.mapM (associationEnd program allocation) =
      .ok parts.associationEnds
  projections : allocation.projections.mapM (projection program allocation) = .ok parts.projections
  serviceGroups :
    allocation.serviceGroups.mapM (serviceGroup program allocation) = .ok parts.serviceGroups
  urls : allocation.urls.mapM (url program allocation) = .ok parts.urls
  parameters : allocation.parameters.mapM (parameter program allocation) = .ok parts.parameters
  services : allocation.services.mapM (service program allocation) = .ok parts.services

/-- A model that was assembled is made record by record. -/
theorem made_of_parts {program : Program} {result : Model.Parts}
    (assembled : parts program = .ok result) : Made program (.ofProgram program) result := by
  simp only [parts, bind_eq_ok, pure_eq_ok] at assembled
  obtain ⟨interfaces, madeInterfaces, classes, madeClasses, properties, madeProperties,
    endSignatures, madeEndSignatures, pairs, madePairs, associationEnds, madeAssociationEnds,
    projections, madeProjections, serviceGroups, madeServiceGroups, urls, madeUrls, parameters,
    madeParameters, services, madeServices, rfl⟩ := assembled
  exact
    { enumerations := rfl
      interfaces := madeInterfaces
      classes := madeClasses
      properties := madeProperties
      endSignatures := madeEndSignatures
      associations := ⟨pairs, madePairs, rfl, rfl⟩
      associationEnds := madeAssociationEnds
      projections := madeProjections
      serviceGroups := madeServiceGroups
      urls := madeUrls
      parameters := madeParameters
      services := madeServices }

section Facts

variable (program : Program) (allocation : Allocation)

structure ClassifierMade (index : ClassifierIndex) (model : DomainModel)
    (id : Model.ClassifierId) : Prop where
  info : model.parts.info id.toTopLevel = info (program.classifier index).header
  modifiers : model.modifiers id = modifiers (program.classifier index).modifiers
  declaredProperties : model.declaredProperties id =
    (program.classifier index).properties.map (position allocation.properties)
  properties : model.properties id =
    (program.allProperties index).map (position allocation.properties)
  endSignatures : model.endSignatures id =
    (program.classifier index).endSignatures.map (position allocation.endSignatures)

structure ClassMade (index : ClassIndex) (record : Model.Class) : Prop where
  isUser : record.isUser = (program.classes.get index).isUser
  isAbstract : record.isAbstract = (program.classes.get index).isAbstract
  inheritance : record.inheritance =
    (program.classes.get index).abstraction.bind (·.inheritance)
  superclass : record.superclass = (program.superclass? index).map (position allocation.classes)
  associationEnds : record.associationEnds =
    (program.classes.get index).associationEnds.map (position allocation.associationEnds)

structure PropertyMade (index : PropertyIndex) (record : Model.Property) : Prop where
  name : record.name = program.propertyName index
  owner : record.owner = allocation.classifierPosition (program.properties.get index).owner
  dataType : Assembly.dataType allocation (program.properties.get index).declaration.type
    (program.properties.get index).enumeration = .ok record.dataType
  optional : record.optional = (program.properties.get index).declaration.optional
  modifiers : record.modifiers =
    modifiers (program.properties.get index).declaration.modifiers
  validations : record.validations =
    (program.properties.get index).declaration.validations.map fun validation =>
      ⟨validation.kind, validation.value⟩

structure SignatureMade (index : EndSignatureIndex) (record : Model.EndSignature) : Prop where
  name : record.name = program.signatureName index
  owner : record.owner = allocation.classifierPosition (program.endSignatures.get index).owner
  target : ∀ target, (program.endSignatures.get index).target = some (.resolved target) →
    record.target = allocation.classifierPosition target
  multiplicity : record.multiplicity = (program.endSignatures.get index).declaration.multiplicity
  modifiers : record.modifiers =
    modifiers (program.endSignatures.get index).declaration.modifiers

structure AssociationMade (index : AssociationIndex) (record : Model.Association) : Prop where
  info : record.info = info (program.associations.get index).header
  source : record.source =
    position allocation.associationEnds (program.associations.get index).source
  target : record.target =
    position allocation.associationEnds (program.associations.get index).target
  criteria : ∀ relationship, (program.associations.get index).relationship = some relationship →
    Assembly.criteria allocation relationship = .ok record.criteria
  join : record.join = (program.associations.get index).join.getD .predicate

structure EndMade (index : AssociationEndIndex) (record : Model.AssociationEnd) : Prop where
  name : record.name = program.endName index
  association : record.association =
    position allocation.associations (program.associationEnds.get index).association
  owner : ∀ owner, (program.associationEnds.get index).owner = some owner →
    record.owner = position allocation.classes owner
  target : ∀ target, (program.associationEnds.get index).target = .resolved target →
    record.target = position allocation.classes target
  multiplicity : record.multiplicity =
    (program.associationEnds.get index).declaration.multiplicity
  modifiers : record.modifiers =
    modifiers (program.associationEnds.get index).declaration.modifiers
  orderBy : Assembly.orderBy allocation (program.associationEnds.get index).orderBy =
    .ok record.orderBy
  opposite : record.opposite =
    position allocation.associationEnds (program.associationEnds.get index).opposite

structure ProjectionMade (index : ProjectionIndex) (record : Model.Projection) : Prop where
  info : record.info = info (program.projections.get index).header
  classifier : ∀ classifier,
    (program.projections.get index).classifier = some (.resolved classifier) →
      record.classifier = allocation.classifierPosition classifier
  children : projectionElements allocation (program.projections.get index).children =
    .ok record.children

structure GroupMade (index : ServiceGroupIndex) (record : Model.ServiceGroup) : Prop where
  info : record.info = info (program.serviceGroups.get index).header
  klass : ∀ klass, (program.serviceGroups.get index).klass = some (.resolved klass) →
    record.klass = position allocation.classes klass
  urls : record.urls = (program.serviceGroups.get index).urls.map (position allocation.urls)

structure UrlMade (index : UrlIndex) (record : Model.Url) : Prop where
  group : record.group = position allocation.serviceGroups (program.urls.get index).group
  path : (program.urls.get index).path.mapM (urlSegment allocation) = .ok record.path
  queryParameters : record.queryParameters =
    (program.urls.get index).queryParameters.map (position allocation.parameters)
  services : record.services =
    (program.urls.get index).services.map (position allocation.services)

structure ParameterMade (index : ParameterIndex) (record : Model.Parameter) : Prop where
  name : record.name = (program.parameters.get index).name.name
  url : record.url = position allocation.urls (program.parameters.get index).url
  dataType : Assembly.dataType allocation (program.parameters.get index).declaration.type
    (program.parameters.get index).enumeration = .ok record.dataType
  multiplicity : record.multiplicity = (program.parameters.get index).declaration.multiplicity

structure ServiceMade (index : ServiceIndex) (record : Model.Service) : Prop where
  url : record.url = position allocation.urls (program.services.get index).url
  verb : record.verb = (program.services.get index).declaration.verb
  multiplicity : record.multiplicity = (program.services.get index).declaration.multiplicity
  clauses : (program.services.get index).clauses.mapM
    (clause allocation (program.services.get index).declaration.verb) = .ok record.clauses
  projection : serviceProjection allocation (program.services.get index) = .ok record.projection
  orderBy : Assembly.orderBy allocation (program.services.get index).orderBy = .ok record.orderBy

end Facts

section Inversion

variable {program : Program} {allocation : Allocation} {model : DomainModel}

theorem resolved_eq_ok {α : Type} {resolution : Resolution α} {what : String} {value : α} :
    resolved resolution what = .ok value ↔ resolution = .resolved value := by
  cases resolution <;> simp [resolved]

theorem filled_eq_ok {α : Type} {filling : Option α} {what : String} {value : α} :
    filled filling what = .ok value ↔ filling = some value := by
  cases filling <;> simp [filled]

/-- The superclass is the one that was found. -/
theorem superclass_eq_ok {record : Resolved.Class} {result : Option Model.ClassId}
    (made : superclass allocation record = .ok result) :
    result = record.superclass?.map (position allocation.classes) := by
  unfold superclass at made
  split at made
  · next none =>
    rw [pure_eq_ok] at made
    rw [← made, Resolved.Class.superclass?, none]
    rfl
  · next resolution named =>
    simp only [bind_eq_ok, pure_eq_ok, resolved_eq_ok, Allocation.idOf_eq_ok] at made
    obtain ⟨parent, rfl, _, ⟨-, rfl⟩, rfl⟩ := made
    rw [Resolved.Class.superclass?, named]
    rfl

/-- The interfaces are those that were found, when each name was looked up. -/
theorem interfaces_eq_ok {record : Resolved.Classifier} {result : List Model.InterfaceId}
    (all : record.interfaces.length = record.declaredInterfaces.length)
    (made : interfaces allocation record = .ok result) :
    result = record.resolvedInterfaces.map (position allocation.interfaces) := by
  rw [interfaces, mapM_eq_ok] at made
  have found : List.Forall₂ (fun resolution id => ∃ index, resolution = .resolved index ∧
      position allocation.interfaces index = id)
      ((record.interfaces.zip record.declaredInterfaces).map Prod.fst) result := by
    rw [List.forall₂_map_left_iff]
    refine made.imp fun entry id assembled => ?_
    simp only [bind_eq_ok, resolved_eq_ok, Allocation.idOf_eq_ok] at assembled
    obtain ⟨index, resolved, -, same⟩ := assembled
    exact ⟨index, resolved, same⟩
  rw [List.map_fst_zip all.le] at found
  rw [Resolved.Classifier.resolvedInterfaces]
  clear made
  generalize record.interfaces = resolutions at found ⊢
  induction found with
  | nil => rfl
  | cons here _ ih =>
    obtain ⟨index, rfl, rfl⟩ := here
    rw [ih]
    rfl

/-- Foreign keys are assembled one by one. -/
theorem foreignKeys_eq_ok {records : List Resolved.ForeignKey} {result : List Model.ForeignKey}
    (made : records.mapM (foreignKey allocation) = .ok result) :
    result = records.map (keyPosition allocation) := by
  rw [mapM_eq_ok] at made
  induction made with
  | nil => rfl
  | cons here _ ih =>
    simp only [foreignKey, bind_eq_ok, pure_eq_ok, Allocation.idOf_eq_ok] at here
    obtain ⟨_, ⟨-, rfl⟩, _, ⟨-, rfl⟩, _, ⟨-, rfl⟩, rfl⟩ := here
    rw [List.map_cons, ih]
    rfl

namespace Made

variable (made : Made program allocation model.parts)
include made

/-- A model names the interfaces that were found. -/
theorem interfaces_eq {index : ClassifierIndex} (has : allocation.HasClassifier index)
    (all : (program.classifier index).interfaces.length =
      (program.classifier index).declaredInterfaces.length) :
    model.interfaces (allocation.classifierPosition index) =
      (program.classifier index).resolvedInterfaces.map (position allocation.interfaces) := by
  cases index with
  | interface index =>
    have record := Allocation.made_at_position made.interfaces has
    simp only [interface, bind_eq_ok, pure_eq_ok] at record
    obtain ⟨_, interfaces, _, -, _, -, _, -, record⟩ := record
    exact (congrArg (·.interfaces) record.symm).trans (interfaces_eq_ok all interfaces)
  | klass index =>
    have record := Allocation.made_at_position made.classes has
    simp only [klass, bind_eq_ok, pure_eq_ok] at record
    obtain ⟨_, -, _, interfaces, _, -, _, -, _, -, _, -, _, -, _, -, record⟩ := record
    exact (congrArg (·.interfaces) record.symm).trans (interfaces_eq_ok all interfaces)

/-- The record at the id of a classifier was made of it. -/
theorem classifier {index : ClassifierIndex} (has : allocation.HasClassifier index) :
    ClassifierMade program allocation index model (allocation.classifierPosition index) := by
  cases index with
  | interface index =>
    have record := Allocation.made_at_position made.interfaces has
    simp only [interface, bind_eq_ok, pure_eq_ok, Allocation.idsOf_eq_ok] at record
    obtain ⟨_, -, _, ⟨-, rfl⟩, _, ⟨-, rfl⟩, _, ⟨-, rfl⟩, record⟩ := record
    exact ⟨congrArg (·.info) record.symm, congrArg (·.modifiers) record.symm,
      congrArg (·.declaredProperties) record.symm, congrArg (·.properties) record.symm,
      congrArg (·.endSignatures) record.symm⟩
  | klass index =>
    have record := Allocation.made_at_position made.classes has
    simp only [klass, bind_eq_ok, pure_eq_ok, Allocation.idsOf_eq_ok] at record
    obtain ⟨_, -, _, -, _, ⟨-, rfl⟩, _, ⟨-, rfl⟩, _, ⟨-, rfl⟩, _, -, _, -, _, -, record⟩ := record
    exact ⟨congrArg (·.info) record.symm, congrArg (·.modifiers) record.symm,
      congrArg (·.declaredProperties) record.symm, congrArg (·.properties) record.symm,
      congrArg (·.endSignatures) record.symm⟩

theorem enumeration {index : EnumerationIndex} (has : index ∈ allocation.enumerations) :
    model.parts.enumeration (position allocation.enumerations index) =
      Assembly.enumeration (program.enumerations.get index) := by
  have inside := Allocation.position_lt has
  simp only [Model.Parts.enumeration, made.enumerations, List.getD_eq_getElem?_getD,
    List.getElem?_map, List.getElem?_eq_getElem inside, Option.map_some, Option.getD_some]
  exact congrArg (fun index => Assembly.enumeration (program.enumerations.get index))
    (List.getElem_idxOf inside)

theorem klass {index : ClassIndex} (has : index ∈ allocation.classes) :
    ClassMade program allocation index (model.parts.klass (position allocation.classes index)) := by
  have record : Assembly.klass program allocation index = .ok (model.parts.klass _) :=
    Allocation.made_at_position made.classes has
  simp only [Assembly.klass, bind_eq_ok, pure_eq_ok, Allocation.idsOf_eq_ok] at record
  obtain ⟨_, parent, _, -, _, -, _, -, _, -, _, ⟨-, rfl⟩, _, -, _, -, record⟩ := record
  rw [← record]
  exact ⟨rfl, rfl, rfl, superclass_eq_ok parent, rfl⟩

theorem property {index : PropertyIndex} (has : index ∈ allocation.properties) :
    PropertyMade program allocation index
      (model.parts.property (position allocation.properties index)) := by
  have record : Assembly.property program allocation index = .ok (model.parts.property _) :=
    Allocation.made_at_position made.properties has
  simp only [Assembly.property, bind_eq_ok, pure_eq_ok, Allocation.classifierId_eq_ok] at record
  obtain ⟨_, ⟨-, rfl⟩, _, dataType, record⟩ := record
  rw [← record]
  exact ⟨rfl, rfl, dataType, rfl, rfl, rfl⟩

theorem endSignature {index : EndSignatureIndex} (has : index ∈ allocation.endSignatures) :
    SignatureMade program allocation index
      (model.parts.endSignature (position allocation.endSignatures index)) := by
  have record : Assembly.endSignature program allocation index =
      .ok (model.parts.endSignature _) := Allocation.made_at_position made.endSignatures has
  simp only [Assembly.endSignature, bind_eq_ok, pure_eq_ok, resolved_eq_ok,
    Allocation.classifierId_eq_ok] at record
  obtain ⟨target, found, _, ⟨-, rfl⟩, _, ⟨-, rfl⟩, record⟩ := record
  rw [← record]
  refine ⟨rfl, rfl, fun other same => ?_, rfl, rfl⟩
  rw [same, Option.getD_some, Resolution.resolved.injEq] at found
  rw [found]

theorem association {index : AssociationIndex} (has : index ∈ allocation.associations) :
    AssociationMade program allocation index
      (model.parts.association (position allocation.associations index)) := by
  obtain ⟨pairs, madePairs, records, -⟩ := made.associations
  have record := Allocation.made_at_position madePairs has
  have inside : (position allocation.associations index).value < pairs.length := by
    rw [Allocation.length_made madePairs]
    exact Allocation.position_lt has
  have first : model.parts.association (position allocation.associations index) =
      (pairs.getD (position allocation.associations index).value default).1 := by
    simp [Model.Parts.association, records, List.getD_eq_getElem?_getD, inside]
  simp only [Assembly.association, bind_eq_ok, pure_eq_ok, filled_eq_ok,
    Allocation.idOf_eq_ok] at record
  obtain ⟨relationship, filled, _, ⟨-, rfl⟩, _, ⟨-, rfl⟩, _, assembled, _, -, record⟩ := record
  rw [first, ← record]
  refine ⟨rfl, rfl, rfl, fun other same => ?_, rfl⟩
  rw [filled, Option.some.injEq] at same
  rw [← same]
  exact assembled

/-- The foreign keys of a model are those of the associations in their order. -/
theorem foreignKeys_eq : model.parts.foreignKeys = allocation.associations.flatMap fun index =>
    (program.associations.get index).foreignKeys.map (keyPosition allocation) := by
  obtain ⟨pairs, madePairs, -, keys⟩ := made.associations
  rw [keys]
  rw [mapM_eq_ok] at madePairs
  clear keys
  generalize allocation.associations = order at madePairs ⊢
  induction madePairs with
  | nil => rfl
  | @cons index pair _ _ here _ ih =>
    simp only [Assembly.association, bind_eq_ok, pure_eq_ok] at here
    obtain ⟨_, -, _, -, _, -, _, -, keys, madeKeys, rfl⟩ := here
    rw [List.flatMap_cons, List.flatMap_cons, ih, foreignKeys_eq_ok madeKeys]

/-- Every association of a model stands at the id of an association of the program. -/
theorem exists_mem_associations (distinct : allocation.associations.Nodup)
    {record : Model.Association} (member : record ∈ model.parts.associations) :
    ∃ index ∈ allocation.associations,
      model.parts.association (position allocation.associations index) = record := by
  obtain ⟨pairs, madePairs, records, -⟩ := made.associations
  rw [records] at member
  obtain ⟨pair, among, rfl⟩ := List.mem_map.mp member
  obtain ⟨index, known, here⟩ := Allocation.exists_mem_made distinct madePairs among
  refine ⟨index, known, ?_⟩
  have inside : (position allocation.associations index).value < pairs.length := by
    rw [Allocation.length_made madePairs]
    exact Allocation.position_lt known
  rw [← here]
  simp [Model.Parts.association, records, List.getD_eq_getElem?_getD, inside]

theorem exists_mem_associationEnds (distinct : allocation.associationEnds.Nodup)
    {record : Model.AssociationEnd} (member : record ∈ model.parts.associationEnds) :
    ∃ index ∈ allocation.associationEnds,
      model.parts.associationEnd (position allocation.associationEnds index) = record :=
  Allocation.exists_mem_made distinct made.associationEnds member

theorem exists_mem_projections (distinct : allocation.projections.Nodup)
    {record : Model.Projection} (member : record ∈ model.parts.projections) :
    ∃ index ∈ allocation.projections,
      model.parts.projection (position allocation.projections index) = record :=
  Allocation.exists_mem_made distinct made.projections member

theorem exists_mem_services (distinct : allocation.services.Nodup)
    {record : Model.Service} (member : record ∈ model.parts.services) :
    ∃ index ∈ allocation.services,
      model.parts.service (position allocation.services index) = record :=
  Allocation.exists_mem_made distinct made.services member

theorem associationEnd {index : AssociationEndIndex} (has : index ∈ allocation.associationEnds) :
    EndMade program allocation index
      (model.parts.associationEnd (position allocation.associationEnds index)) := by
  have record : Assembly.associationEnd program allocation index =
      .ok (model.parts.associationEnd _) := Allocation.made_at_position made.associationEnds has
  simp only [Assembly.associationEnd, bind_eq_ok, pure_eq_ok, resolved_eq_ok, filled_eq_ok,
    Allocation.idOf_eq_ok] at record
  obtain ⟨target, found, owner, owned, _, ⟨-, rfl⟩, _, ⟨-, rfl⟩, _, ⟨-, rfl⟩, _, ordering, _,
    ⟨-, rfl⟩, record⟩ := record
  rw [← record]
  refine ⟨rfl, rfl, fun other same => ?_, fun other same => ?_, rfl, rfl, ordering, rfl⟩
  · rw [owned, Option.some.injEq] at same
    rw [← same]
  · rw [found, Resolution.resolved.injEq] at same
    rw [← same]

theorem projection {index : ProjectionIndex} (has : index ∈ allocation.projections) :
    ProjectionMade program allocation index
      (model.parts.projection (position allocation.projections index)) := by
  have record : Assembly.projection program allocation index = .ok (model.parts.projection _) :=
    Allocation.made_at_position made.projections has
  simp only [Assembly.projection, bind_eq_ok, pure_eq_ok, resolved_eq_ok,
    Allocation.classifierId_eq_ok] at record
  obtain ⟨classifier, found, _, ⟨-, rfl⟩, _, children, record⟩ := record
  rw [← record]
  refine ⟨rfl, fun other same => ?_, children⟩
  rw [same, Option.getD_some, Resolution.resolved.injEq] at found
  rw [found]

theorem serviceGroup {index : ServiceGroupIndex} (has : index ∈ allocation.serviceGroups) :
    GroupMade program allocation index
      (model.parts.serviceGroup (position allocation.serviceGroups index)) := by
  have record : Assembly.serviceGroup program allocation index =
      .ok (model.parts.serviceGroup _) := Allocation.made_at_position made.serviceGroups has
  simp only [Assembly.serviceGroup, bind_eq_ok, pure_eq_ok, resolved_eq_ok,
    Allocation.idOf_eq_ok, Allocation.idsOf_eq_ok] at record
  obtain ⟨klass, found, _, ⟨-, rfl⟩, _, ⟨-, rfl⟩, record⟩ := record
  rw [← record]
  refine ⟨rfl, fun other same => ?_, rfl⟩
  rw [same, Option.getD_some, Resolution.resolved.injEq] at found
  rw [found]

theorem url {index : UrlIndex} (has : index ∈ allocation.urls) :
    UrlMade program allocation index (model.parts.url (position allocation.urls index)) := by
  have record : Assembly.url program allocation index = .ok (model.parts.url _) :=
    Allocation.made_at_position made.urls has
  simp only [Assembly.url, bind_eq_ok, pure_eq_ok, Allocation.idOf_eq_ok,
    Allocation.idsOf_eq_ok] at record
  obtain ⟨_, path, _, ⟨-, rfl⟩, _, ⟨-, rfl⟩, _, ⟨-, rfl⟩, record⟩ := record
  rw [← record]
  exact ⟨rfl, path, rfl, rfl⟩

theorem parameter {index : ParameterIndex} (has : index ∈ allocation.parameters) :
    ParameterMade program allocation index
      (model.parts.parameter (position allocation.parameters index)) := by
  have record : Assembly.parameter program allocation index = .ok (model.parts.parameter _) :=
    Allocation.made_at_position made.parameters has
  simp only [Assembly.parameter, bind_eq_ok, pure_eq_ok, Allocation.idOf_eq_ok] at record
  obtain ⟨_, ⟨-, rfl⟩, _, dataType, record⟩ := record
  rw [← record]
  exact ⟨rfl, rfl, dataType, rfl⟩

theorem service {index : ServiceIndex} (has : index ∈ allocation.services) :
    ServiceMade program allocation index
      (model.parts.service (position allocation.services index)) := by
  have record : Assembly.service program allocation index = .ok (model.parts.service _) :=
    Allocation.made_at_position made.services has
  simp only [Assembly.service, bind_eq_ok, pure_eq_ok, Allocation.idOf_eq_ok] at record
  obtain ⟨_, clauses, _, projection, _, ⟨-, rfl⟩, _, ordering, record⟩ := record
  rw [← record]
  exact ⟨rfl, rfl, rfl, clauses, projection, ordering⟩

end Made

end Inversion

end Assembly
end DomainLang
