import DomainLang.Proofs.Assembly.Records

/-!
# The ids that a model stores

Every id that stands anywhere in the records of a model, with its kind. The ids that assembly
stores are positions in the orders of allocation, so each of them is the position of a record.
-/

namespace DomainLang

namespace Model

/-- An id of any kind. -/
structure StoredId where
  kind : RecordKind
  id : Id kind
  deriving DecidableEq, Repr

namespace ClassifierId

/-- The id of the interface or class. -/
def stored : ClassifierId → StoredId
  | interface id => ⟨_, id⟩
  | klass id => ⟨_, id⟩

end ClassifierId

def storedAll {kind : RecordKind} (ids : List (Id kind)) : List StoredId :=
  ids.map (StoredId.mk kind)

def MemberPath.storedIds (path : MemberPath) : List StoredId :=
  path.classifier.stored :: ⟨_, path.property⟩ :: storedAll path.hops

def Value.storedIds : Value → List StoredId
  | thisMember path | typeMember path => path.storedIds
  | .variable parameter => [⟨_, parameter⟩]
  | literal _ | literals _ | user => []

def Criteria.storedIds : Criteria → List StoredId
  | all => []
  | and left right | or left right => left.storedIds ++ right.storedIds
  | operator source _ target => source.storedIds ++ target.storedIds
  | edgePoint path => path.storedIds

def OrderBy.storedIds (ordering : OrderBy) : List StoredId :=
  ordering.members.flatMap fun member => member.path.storedIds

def DataType.storedIds : DataType → List StoredId
  | primitive _ => []
  | enumeration id => [⟨_, id⟩]

/-- The id of what a projection navigates along. -/
def Reference.stored : Reference → StoredId
  | associationEnd id => ⟨_, id⟩
  | signature id => ⟨_, id⟩

namespace ProjectionElement

mutual

/-- The ids of an element and its children. -/
def storedIds : ProjectionElement → List StoredId
  | property _ _ id => [⟨_, id⟩]
  | reference _ target children => target.stored :: storedIdsOfAll children
  | projection _ target id => [target.stored, ⟨_, id⟩]

/-- The ids of elements and their children. -/
def storedIdsOfAll : List ProjectionElement → List StoredId
  | [] => []
  | element :: rest => storedIds element ++ storedIdsOfAll rest

end

end ProjectionElement

def Interface.storedIds (record : Interface) : List StoredId :=
  storedAll record.interfaces ++ storedAll record.declaredProperties ++
    storedAll record.properties ++ storedAll record.endSignatures

def Class.storedIds (record : Class) : List StoredId :=
  storedAll record.superclass.toList ++ storedAll record.interfaces ++
    storedAll record.declaredProperties ++ storedAll record.properties ++
    storedAll record.endSignatures ++ storedAll record.associationEnds ++
    storedAll record.versionEnd.toList ++ storedAll record.versionedEnd.toList

def Property.storedIds (record : Property) : List StoredId :=
  record.owner.stored :: record.dataType.storedIds

def EndSignature.storedIds (record : EndSignature) : List StoredId :=
  [record.owner.stored, record.target.stored]

def Association.storedIds (record : Association) : List StoredId :=
  ⟨_, record.source⟩ :: ⟨_, record.target⟩ :: record.criteria.storedIds

def AssociationEnd.storedIds (record : AssociationEnd) : List StoredId :=
  ⟨_, record.association⟩ :: ⟨_, record.owner⟩ :: ⟨_, record.target⟩ :: ⟨_, record.opposite⟩ ::
    record.orderBy.elim [] OrderBy.storedIds

def ForeignKey.storedIds (record : ForeignKey) : List StoredId :=
  [⟨_, record.associationEnd⟩, ⟨_, record.foreignKey⟩, ⟨_, record.key⟩]

def Projection.storedIds (record : Projection) : List StoredId :=
  record.classifier.stored :: ProjectionElement.storedIdsOfAll record.children

def ServiceGroup.storedIds (record : ServiceGroup) : List StoredId :=
  ⟨_, record.klass⟩ :: storedAll record.urls

namespace UrlSegment

/-- The parameter, for a segment that is one. -/
def parameter? : UrlSegment → Option ParameterId
  | parameter id => some id
  | constant _ => none

end UrlSegment

/-- The parameters of the path, then those of the query. -/
def Url.parameters (record : Url) : List ParameterId :=
  record.path.filterMap UrlSegment.parameter? ++ record.queryParameters

def Url.storedIds (record : Url) : List StoredId :=
  ⟨_, record.group⟩ :: (storedAll record.parameters ++ storedAll record.services)

def Parameter.storedIds (record : Parameter) : List StoredId :=
  ⟨_, record.url⟩ :: record.dataType.storedIds

def Service.storedIds (record : Service) : List StoredId :=
  ⟨_, record.url⟩ :: (record.clauses.flatMap (fun clause => clause.criteria.storedIds) ++
    storedAll record.projection.toList ++ record.orderBy.elim [] OrderBy.storedIds)

namespace Parts

/-- The number of records of a kind. -/
def size (parts : Parts) : RecordKind → Nat
  | .enumeration => parts.enumerations.length
  | .interface => parts.interfaces.length
  | .klass => parts.classes.length
  | .property => parts.properties.length
  | .endSignature => parts.endSignatures.length
  | .association => parts.associations.length
  | .associationEnd => parts.associationEnds.length
  | .projection => parts.projections.length
  | .serviceGroup => parts.serviceGroups.length
  | .url => parts.urls.length
  | .parameter => parts.parameters.length
  | .service => parts.services.length

/-- Every id that is stored in a record; enumerations store none. -/
def storedIds (parts : Parts) : List StoredId :=
  parts.interfaces.flatMap Interface.storedIds ++ parts.classes.flatMap Class.storedIds ++
    parts.properties.flatMap Property.storedIds ++
    parts.endSignatures.flatMap EndSignature.storedIds ++
    parts.associations.flatMap Association.storedIds ++
    parts.associationEnds.flatMap AssociationEnd.storedIds ++
    parts.foreignKeys.flatMap ForeignKey.storedIds ++
    parts.projections.flatMap Projection.storedIds ++
    parts.serviceGroups.flatMap ServiceGroup.storedIds ++ parts.urls.flatMap Url.storedIds ++
    parts.parameters.flatMap Parameter.storedIds ++ parts.services.flatMap Service.storedIds

end Parts
end Model

namespace Allocation

open Model (StoredId storedAll)

/-- The number of ids of a kind. -/
def size (allocation : Allocation) : RecordKind → Nat
  | .enumeration => allocation.enumerations.length
  | .interface => allocation.interfaces.length
  | .klass => allocation.classes.length
  | .property => allocation.properties.length
  | .endSignature => allocation.endSignatures.length
  | .association => allocation.associations.length
  | .associationEnd => allocation.associationEnds.length
  | .projection => allocation.projections.length
  | .serviceGroup => allocation.serviceGroups.length
  | .url => allocation.urls.length
  | .parameter => allocation.parameters.length
  | .service => allocation.services.length

/-- All ids of a list were allocated. -/
def Allocated (allocation : Allocation) (ids : List StoredId) : Prop :=
  ∀ stored ∈ ids, stored.id.value < allocation.size stored.kind

namespace Allocated

variable {allocation : Allocation}

@[simp]
theorem nil : allocation.Allocated [] := by
  rintro _ ⟨⟩

@[simp]
theorem cons {first : StoredId} {rest : List StoredId} :
    allocation.Allocated (first :: rest) ↔
      first.id.value < allocation.size first.kind ∧ allocation.Allocated rest := by
  simp [Allocated]

@[simp]
theorem append {first second : List StoredId} :
    allocation.Allocated (first ++ second) ↔
      allocation.Allocated first ∧ allocation.Allocated second := by
  simp only [Allocated, List.mem_append, or_imp, forall_and]

/-- Ids are allocated in a list where they are in each item. -/
@[simp]
theorem flatMap {α : Type} {items : List α} {ids : α → List StoredId} :
    allocation.Allocated (items.flatMap ids) ↔ ∀ item ∈ items, allocation.Allocated (ids item) := by
  simp only [Allocated, List.mem_flatMap]
  exact ⟨fun all item member stored inside => all stored ⟨item, member, inside⟩,
    fun all stored ⟨item, member, inside⟩ => all item member stored inside⟩

/-- Ids of one kind are bounded by the order of the kind. -/
theorem storedAll {kind : RecordKind} {ids : List (Model.Id kind)} :
    allocation.Allocated (storedAll ids) ↔ ∀ id ∈ ids, id.value < allocation.size kind := by
  simp [Allocated, Model.storedAll]

end Allocated

/-- An id is a position in the order it was looked up in. -/
theorem lt_of_idOf {kind : RecordKind} {order : List (Index kind)} {index : Index kind}
    {id : Model.Id kind} (made : idOf order index = .ok id) : id.value < order.length := by
  obtain ⟨member, rfl⟩ := idOf_eq_ok.mp made
  exact position_lt member

end Allocation

namespace Assembly

open Allocation (idOf idsOf Allocated lt_of_idOf)
open Model (StoredId storedAll)

variable {program : Program} {allocation : Allocation}

theorem allocated_idsOf {kind : RecordKind} {order indices : List (Index kind)}
    {ids : List (Model.Id kind)} (made : idsOf order indices = .ok ids)
    (size : order.length = allocation.size kind) : allocation.Allocated (storedAll ids) := by
  rw [Allocated.storedAll, ← size]
  exact forall_of_mapM made fun _ _ => lt_of_idOf

theorem allocated_classifierId {classifier : ClassifierIndex} {id : Model.ClassifierId}
    (made : allocation.classifierId classifier = .ok id) :
    id.stored.id.value < allocation.size id.stored.kind := by
  cases classifier <;> simp only [Allocation.classifierId, bind_eq_ok, pure_eq_ok] at made <;>
    obtain ⟨_, here, rfl⟩ := made <;> exact lt_of_idOf here

/-- The ids of an assembled path are allocated. -/
theorem allocated_memberPath {path : Resolved.MemberPath} {result : Model.MemberPath}
    (made : memberPath allocation path = .ok result) : allocation.Allocated result.storedIds := by
  simp only [memberPath, bind_eq_ok, pure_eq_ok] at made
  obtain ⟨_, -, hops, hopsMade, _, -, classifier, classifierMade, property, propertyMade, rfl⟩ :=
    made
  simp only [Model.MemberPath.storedIds, Allocated.cons, Allocated.storedAll]
  refine ⟨allocated_classifierId classifierMade, lt_of_idOf propertyMade, ?_⟩
  refine forall_of_mapM hopsMade fun step id here => ?_
  simp only [hop, bind_eq_ok] at here
  obtain ⟨_, -, here⟩ := here
  exact lt_of_idOf here

theorem allocated_value {operand : Resolved.Value} {result : Model.Value}
    (made : value allocation operand = .ok result) : allocation.Allocated result.storedIds := by
  cases operand with
  | member path =>
    simp only [value] at made
    split at made <;> simp only [bind_eq_ok, pure_eq_ok] at made <;>
      obtain ⟨_, here, rfl⟩ := made <;> exact allocated_memberPath here
  | «variable» name parameter =>
    simp only [value, bind_eq_ok, pure_eq_ok] at made
    obtain ⟨_, -, id, here, rfl⟩ := made
    exact Allocated.cons.mpr ⟨lt_of_idOf here, Allocated.nil⟩
  | literal _ _ | literals _ _ | user _ =>
    cases made
    exact Allocated.nil

/-- The ids of an assembled criteria are allocated, by its constructors. -/
theorem allocated_criteria {condition : Resolved.Criteria} {result : Model.Criteria}
    (made : criteria allocation condition = .ok result) :
    allocation.Allocated result.storedIds := by
  induction condition generalizing result with
  | all _ =>
    cases made
    exact Allocated.nil
  | and left right leftAllocated rightAllocated | or left right leftAllocated rightAllocated =>
    simp only [criteria, bind_eq_ok, pure_eq_ok] at made
    obtain ⟨_, leftMade, _, rightMade, rfl⟩ := made
    exact Allocated.append.mpr ⟨leftAllocated leftMade, rightAllocated rightMade⟩
  | operator source _ target _ =>
    simp only [criteria, bind_eq_ok, pure_eq_ok] at made
    obtain ⟨_, sourceMade, _, targetMade, rfl⟩ := made
    exact Allocated.append.mpr ⟨allocated_value sourceMade, allocated_value targetMade⟩
  | edgePoint path _ =>
    simp only [criteria, bind_eq_ok, pure_eq_ok] at made
    obtain ⟨_, here, rfl⟩ := made
    exact allocated_memberPath here

theorem allocated_orderBy {ordering : Option Resolved.OrderBy} {result : Option Model.OrderBy}
    (made : orderBy allocation ordering = .ok result) :
    allocation.Allocated (result.elim [] Model.OrderBy.storedIds) := by
  cases ordering with
  | none =>
    cases made
    exact Allocated.nil
  | some written =>
    simp only [orderBy, bind_eq_ok, pure_eq_ok] at made
    obtain ⟨members, membersMade, rfl⟩ := made
    refine Allocated.flatMap.mpr (forall_of_mapM membersMade fun member key here => ?_)
    simp only [orderByMember, bind_eq_ok, pure_eq_ok] at here
    obtain ⟨_, pathMade, rfl⟩ := here
    exact allocated_memberPath pathMade

theorem allocated_reference {name : String} {resolution : Resolution Resolved.Reference}
    {result : Model.Reference} (made : reference allocation name resolution = .ok result) :
    result.stored.id.value < allocation.size result.stored.kind := by
  simp only [reference, bind_eq_ok] at made
  obtain ⟨index, -, made⟩ := made
  cases index <;> simp only [bind_eq_ok, pure_eq_ok] at made <;>
    obtain ⟨_, here, rfl⟩ := made <;> exact lt_of_idOf here

mutual

/-- The ids of an assembled element are allocated, at every level. -/
theorem allocated_projectionElement (element : Resolved.ProjectionElement)
    (result : Model.ProjectionElement) (made : projectionElement allocation element = .ok result) :
    allocation.Allocated result.storedIds := by
  cases element with
  | property name header resolution =>
    simp only [projectionElement, bind_eq_ok, pure_eq_ok] at made
    obtain ⟨_, -, id, here, rfl⟩ := made
    rw [Model.ProjectionElement.storedIds]
    exact Allocated.cons.mpr ⟨lt_of_idOf here, Allocated.nil⟩
  | reference name resolution children =>
    simp only [projectionElement, bind_eq_ok, pure_eq_ok] at made
    obtain ⟨target, targetMade, below, belowMade, rfl⟩ := made
    simp only [Model.ProjectionElement.storedIds, Allocated.cons]
    exact ⟨allocated_reference targetMade, allocated_projectionElements children below belowMade⟩
  | projection name resolution projectionName projection =>
    simp only [projectionElement, bind_eq_ok, pure_eq_ok] at made
    obtain ⟨_, -, target, targetMade, id, here, rfl⟩ := made
    simp only [Model.ProjectionElement.storedIds, Allocated.cons]
    exact ⟨allocated_reference targetMade, lt_of_idOf here, Allocated.nil⟩

theorem allocated_projectionElements (elements : List Resolved.ProjectionElement)
    (result : List Model.ProjectionElement)
    (made : projectionElements allocation elements = .ok result) :
    allocation.Allocated (Model.ProjectionElement.storedIdsOfAll result) := by
  cases elements with
  | nil =>
    rw [projectionElements, pure_eq_ok] at made
    rw [← made, Model.ProjectionElement.storedIdsOfAll]
    exact Allocated.nil
  | cons element rest =>
    simp only [projectionElements, bind_eq_ok, pure_eq_ok] at made
    obtain ⟨first, firstMade, others, othersMade, rfl⟩ := made
    simp only [Model.ProjectionElement.storedIdsOfAll, Allocated.append]
    exact ⟨allocated_projectionElement element first firstMade,
      allocated_projectionElements rest others othersMade⟩

end

theorem allocated_dataType {type : Syntax.PropertyType}
    {found : Option (Resolution EnumerationIndex)} {result : Model.DataType}
    (made : dataType allocation type found = .ok result) :
    allocation.Allocated result.storedIds := by
  cases type with
  | primitive _ =>
    cases made
    exact Allocated.nil
  | enumeration name =>
    simp only [dataType, bind_eq_ok, pure_eq_ok] at made
    obtain ⟨_, -, id, here, rfl⟩ := made
    exact Allocated.cons.mpr ⟨lt_of_idOf here, Allocated.nil⟩

theorem allocated_interfaces {classifier : Resolved.Classifier} {result : List Model.InterfaceId}
    (made : interfaces allocation classifier = .ok result) :
    allocation.Allocated (storedAll result) := by
  refine Allocated.storedAll.mpr (forall_of_mapM made fun pair id here => ?_)
  simp only [bind_eq_ok] at here
  obtain ⟨_, -, here⟩ := here
  exact lt_of_idOf here

theorem allocated_superclass {record : Resolved.Class} {result : Option Model.ClassId}
    (made : superclass allocation record = .ok result) :
    allocation.Allocated (storedAll result.toList) := by
  unfold superclass at made
  split at made
  · cases made
    exact Allocated.nil
  · simp only [bind_eq_ok, pure_eq_ok] at made
    obtain ⟨_, -, id, here, rfl⟩ := made
    exact Allocated.cons.mpr ⟨lt_of_idOf here, Allocated.nil⟩

/-- The end found for a modifier is allocated. -/
theorem allocated_markedEnd {index : ClassIndex} {modifier : Modifier}
    {result : Option Model.AssociationEndId}
    (made : markedEnd program allocation index modifier = .ok result) :
    allocation.Allocated (storedAll result.toList) := by
  unfold markedEnd at made
  generalize List.find? _ _ = marked at made
  cases marked with
  | none =>
    cases made
    exact Allocated.nil
  | some associationEnd =>
    cases here : idOf allocation.associationEnds associationEnd with
    | error fault => simp [here] at made
    | ok id =>
      obtain rfl : some id = result := by simpa [here] using made
      exact Allocated.cons.mpr ⟨lt_of_idOf here, Allocated.nil⟩

theorem allocated_interface {index : InterfaceIndex} {record : Model.Interface}
    (made : interface program allocation index = .ok record) :
    allocation.Allocated record.storedIds := by
  simp only [interface, bind_eq_ok, pure_eq_ok] at made
  obtain ⟨_, interfaces, _, declared, _, inherited, _, signatures, rfl⟩ := made
  simp only [Model.Interface.storedIds, Allocated.append]
  exact ⟨⟨⟨allocated_interfaces interfaces, allocated_idsOf declared rfl⟩,
    allocated_idsOf inherited rfl⟩, allocated_idsOf signatures rfl⟩

/-- The ids of an assembled class are allocated. -/
theorem allocated_klass {index : ClassIndex} {record : Model.Class}
    (made : klass program allocation index = .ok record) :
    allocation.Allocated record.storedIds := by
  simp only [klass, bind_eq_ok, pure_eq_ok] at made
  obtain ⟨_, parent, _, interfaces, _, declared, _, inherited, _, signatures, _, ends, _, version,
    _, versioned, rfl⟩ := made
  simp only [Model.Class.storedIds, Allocated.append]
  exact ⟨⟨⟨⟨⟨⟨⟨allocated_superclass parent, allocated_interfaces interfaces⟩,
    allocated_idsOf declared rfl⟩, allocated_idsOf inherited rfl⟩,
    allocated_idsOf signatures rfl⟩, allocated_idsOf ends rfl⟩, allocated_markedEnd version⟩,
    allocated_markedEnd versioned⟩

theorem allocated_property {index : PropertyIndex} {record : Model.Property}
    (made : property program allocation index = .ok record) :
    allocation.Allocated record.storedIds := by
  simp only [property, bind_eq_ok, pure_eq_ok] at made
  obtain ⟨_, owner, _, type, rfl⟩ := made
  exact Allocated.cons.mpr ⟨allocated_classifierId owner, allocated_dataType type⟩

theorem allocated_endSignature {index : EndSignatureIndex} {record : Model.EndSignature}
    (made : endSignature program allocation index = .ok record) :
    allocation.Allocated record.storedIds := by
  simp only [endSignature, bind_eq_ok, pure_eq_ok] at made
  obtain ⟨_, -, _, owner, _, target, rfl⟩ := made
  simp only [Model.EndSignature.storedIds, Allocated.cons]
  exact ⟨allocated_classifierId owner, allocated_classifierId target, Allocated.nil⟩

/-- So are those of an association and of the foreign keys it gives rise to. -/
theorem allocated_association {index : AssociationIndex}
    {pair : Model.Association × List Model.ForeignKey}
    (made : association program allocation index = .ok pair) :
    allocation.Allocated pair.1.storedIds ∧
      ∀ foreignKey ∈ pair.2, allocation.Allocated foreignKey.storedIds := by
  simp only [association, bind_eq_ok, pure_eq_ok] at made
  obtain ⟨_, -, _, source, _, target, _, relationship, _, keys, rfl⟩ := made
  constructor
  · simp only [Model.Association.storedIds, Allocated.cons]
    exact ⟨lt_of_idOf source, lt_of_idOf target, allocated_criteria relationship⟩
  · refine forall_of_mapM keys fun key result here => ?_
    simp only [foreignKey, bind_eq_ok, pure_eq_ok] at here
    obtain ⟨_, associationEnd, _, foreign, _, referred, rfl⟩ := here
    simp only [Model.ForeignKey.storedIds, Allocated.cons]
    exact ⟨lt_of_idOf associationEnd, lt_of_idOf foreign, lt_of_idOf referred, Allocated.nil⟩

theorem allocated_associationEnd {index : AssociationEndIndex} {record : Model.AssociationEnd}
    (made : associationEnd program allocation index = .ok record) :
    allocation.Allocated record.storedIds := by
  simp only [associationEnd, bind_eq_ok, pure_eq_ok] at made
  obtain ⟨_, -, _, -, _, association, _, owner, _, target, _, ordering, _, opposite, rfl⟩ := made
  simp only [Model.AssociationEnd.storedIds, Allocated.cons]
  exact ⟨lt_of_idOf association, lt_of_idOf owner, lt_of_idOf target, lt_of_idOf opposite,
    allocated_orderBy ordering⟩

theorem allocated_projection {index : ProjectionIndex} {record : Model.Projection}
    (made : projection program allocation index = .ok record) :
    allocation.Allocated record.storedIds := by
  simp only [projection, bind_eq_ok, pure_eq_ok] at made
  obtain ⟨_, -, _, classifier, _, children, rfl⟩ := made
  exact Allocated.cons.mpr
    ⟨allocated_classifierId classifier, allocated_projectionElements _ _ children⟩

theorem allocated_serviceGroup {index : ServiceGroupIndex} {record : Model.ServiceGroup}
    (made : serviceGroup program allocation index = .ok record) :
    allocation.Allocated record.storedIds := by
  simp only [serviceGroup, bind_eq_ok, pure_eq_ok] at made
  obtain ⟨_, -, _, klass, _, urls, rfl⟩ := made
  exact Allocated.cons.mpr ⟨lt_of_idOf klass, allocated_idsOf urls rfl⟩

/-- The ids of an assembled url are allocated, those in its path among them. -/
theorem allocated_url {index : UrlIndex} {record : Model.Url}
    (made : url program allocation index = .ok record) :
    allocation.Allocated record.storedIds := by
  simp only [url, bind_eq_ok, pure_eq_ok] at made
  obtain ⟨path, pathMade, _, group, _, query, _, services, rfl⟩ := made
  simp only [Model.Url.storedIds, Allocated.cons, Allocated.append, Allocated.storedAll,
    Model.Url.parameters, List.forall_mem_append]
  refine ⟨lt_of_idOf group, ⟨?_, Allocated.storedAll.mp (allocated_idsOf query rfl)⟩,
    Allocated.storedAll.mp (allocated_idsOf services rfl)⟩
  have each : ∀ segment ∈ path, ∀ id ∈ segment.parameter?,
      id.value < allocation.size .parameter := by
    refine forall_of_mapM pathMade fun written segment here => ?_
    cases written with
    | constant text =>
      cases here
      simp [Model.UrlSegment.parameter?]
    | parameter index =>
      simp only [urlSegment, bind_eq_ok, pure_eq_ok] at here
      obtain ⟨id, here, rfl⟩ := here
      rintro _ ⟨⟩
      exact lt_of_idOf here
  intro id member
  obtain ⟨segment, inside, same⟩ := List.mem_filterMap.mp member
  exact each segment inside id same

theorem allocated_parameter {index : ParameterIndex} {record : Model.Parameter}
    (made : parameter program allocation index = .ok record) :
    allocation.Allocated record.storedIds := by
  simp only [parameter, bind_eq_ok, pure_eq_ok] at made
  obtain ⟨_, url, _, type, rfl⟩ := made
  exact Allocated.cons.mpr ⟨lt_of_idOf url, allocated_dataType type⟩

theorem allocated_service {index : ServiceIndex} {record : Model.Service}
    (made : service program allocation index = .ok record) :
    allocation.Allocated record.storedIds := by
  simp only [service, bind_eq_ok, pure_eq_ok] at made
  obtain ⟨clauses, clausesMade, projection, projectionMade, _, url, _, ordering, rfl⟩ := made
  simp only [Model.Service.storedIds, Allocated.cons, Allocated.append, Allocated.flatMap]
  refine ⟨lt_of_idOf url, ⟨?_, ?_⟩, allocated_orderBy ordering⟩
  · refine forall_of_mapM clausesMade fun written clause here => ?_
    simp only [Assembly.clause, bind_eq_ok, pure_eq_ok] at here
    obtain ⟨_, -, _, condition, rfl⟩ := here
    exact allocated_criteria condition
  · unfold serviceProjection at projectionMade
    split at projectionMade
    · simp only [bind_eq_ok, pure_eq_ok] at projectionMade
      obtain ⟨_, -, id, here, rfl⟩ := projectionMade
      exact Allocated.cons.mpr ⟨lt_of_idOf here, Allocated.nil⟩
    · cases projectionMade
      exact Allocated.nil

namespace Made

variable {parts : Model.Parts} (made : Made program allocation parts)
include made

/-- A model has as many records of a kind as ids were allocated. -/
theorem size_eq (kind : RecordKind) : parts.size kind = allocation.size kind := by
  cases kind with
  | enumeration => simp [Model.Parts.size, Allocation.size, made.enumerations]
  | interface => exact Allocation.length_made made.interfaces
  | klass => exact Allocation.length_made made.classes
  | property => exact Allocation.length_made made.properties
  | endSignature => exact Allocation.length_made made.endSignatures
  | association =>
    obtain ⟨pairs, madePairs, records, -⟩ := made.associations
    simp [Model.Parts.size, Allocation.size, records, Allocation.length_made madePairs]
  | associationEnd => exact Allocation.length_made made.associationEnds
  | projection => exact Allocation.length_made made.projections
  | serviceGroup => exact Allocation.length_made made.serviceGroups
  | url => exact Allocation.length_made made.urls
  | parameter => exact Allocation.length_made made.parameters
  | service => exact Allocation.length_made made.services

/-- Every id that a model stores is the position of a record of its kind. -/
theorem storedIds_valid : ∀ stored ∈ parts.storedIds, stored.id.value < parts.size stored.kind := by
  obtain ⟨pairs, madePairs, records, foreignKeys⟩ := made.associations
  have pairsAllocated := forall_of_mapM madePairs fun _ _ => allocated_association
  have all : allocation.Allocated parts.storedIds := by
    simp only [Model.Parts.storedIds, Allocated.append, Allocated.flatMap, records, foreignKeys,
      List.forall_mem_map, List.mem_flatMap, forall_exists_index, and_imp]
    refine ⟨⟨⟨⟨⟨⟨⟨⟨⟨⟨⟨?_, ?_⟩, ?_⟩, ?_⟩, ?_⟩, ?_⟩, ?_⟩, ?_⟩, ?_⟩, ?_⟩, ?_⟩, ?_⟩
    · exact forall_of_mapM made.interfaces fun _ _ => allocated_interface
    · exact forall_of_mapM made.classes fun _ _ => allocated_klass
    · exact forall_of_mapM made.properties fun _ _ => allocated_property
    · exact forall_of_mapM made.endSignatures fun _ _ => allocated_endSignature
    · exact fun pair member => (pairsAllocated pair member).1
    · exact forall_of_mapM made.associationEnds fun _ _ => allocated_associationEnd
    · exact fun key pair member inside => (pairsAllocated pair member).2 key inside
    · exact forall_of_mapM made.projections fun _ _ => allocated_projection
    · exact forall_of_mapM made.serviceGroups fun _ _ => allocated_serviceGroup
    · exact forall_of_mapM made.urls fun _ _ => allocated_url
    · exact forall_of_mapM made.parameters fun _ _ => allocated_parameter
    · exact forall_of_mapM made.services fun _ _ => allocated_service
  intro stored member
  rw [made.size_eq]
  exact all stored member

end Made

end Assembly
end DomainLang
