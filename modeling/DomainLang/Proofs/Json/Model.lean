import DomainLang.Proofs.Json.Syntax
import DomainLang.Proofs.Model.DeclarationOrder
import DomainLang.Proofs.Model.Integrity

/-!
# Models are read as they were written

The parts of a model are read back from their JSON form when their ids and ordinals are numbers
of 32 bits and none of their constants is a floating-point number. A model that was compiled has
ids below the numbers of its records and ordinals below the number of its elements, so it is
enough that these numbers are not too large. The index of names is made anew of the parts that
were read, and is the same.
-/

namespace DomainLang

namespace Model

/-- The written form of the id is a number of 32 bits. -/
def StoredId.Fits (stored : StoredId) : Prop :=
  stored.id.value < UInt32.size

theorem StoredId.fits_mk {kind : RecordKind} {id : Id kind} :
    (⟨kind, id⟩ : StoredId).Fits ↔ id.value < UInt32.size :=
  .rfl

theorem forall_mem_storedAll {kind : RecordKind} {ids : List (Id kind)} :
    (∀ stored ∈ storedAll ids, stored.Fits) ↔ ∀ id ∈ ids, id.value < UInt32.size := by
  simp [storedAll, StoredId.Fits]

section Ids

/-- A number is read back where it fits in 32 bits. -/
theorem decodeNumber_natCast {value : Nat} (fits : value < UInt32.size) :
    decodeNumber (.integer value) = some value :=
  Codec.naturalBelow_natCast fits

@[simp]
theorem Id.decode_encode {kind : RecordKind} {id : Id kind} (fits : id.value < UInt32.size) :
    decode (encode id) = some id :=
  congrArg (Option.map Id.mk) (decodeNumber_natCast fits)

instance {kind : RecordKind} : Codec.Solid (Id kind) := ⟨fun _ => Json.noConfusion⟩

/-- Ids of one kind are read back. -/
@[simp]
theorem Id.decode_encode_all {kind : RecordKind} {ids : List (Id kind)}
    (fits : ∀ id ∈ ids, id.value < UInt32.size) : decode (encode ids) = some ids :=
  Codec.decode_encode_list fun id member => Id.decode_encode (fits id member)

/-- An optional id is read back. -/
@[simp]
theorem Id.optional_encode {kind : RecordKind} {id : Option (Id kind)}
    (fits : ∀ content ∈ id.toList, content.value < UInt32.size) :
    Codec.optional (some (encode id)) = some id :=
  Codec.optional_encode fun content member =>
    Id.decode_encode (fits content (Option.mem_toList.mpr member))

@[simp]
theorem ClassifierId.decode_encode {id : ClassifierId} (fits : id.stored.Fits) :
    decode (encode id) = some id := by
  cases id with
  | interface id => exact congrArg (Option.map interface) (Id.decode_encode fits)
  | klass id => exact congrArg (Option.map klass) (Id.decode_encode fits)

end Ids

section Criteria

/-- A path is read back where its ids fit. -/
@[simp]
theorem MemberPath.decode_encode {path : MemberPath}
    (fits : ∀ stored ∈ path.storedIds, stored.Fits) : decode (encode path) = some path := by
  simp only [storedIds, List.forall_mem_cons, forall_mem_storedAll, StoredId.fits_mk] at fits
  refine Json.read_record (by simp) ?_
  simp +contextual [fits]

namespace Value

def constants : Value → List Literal
  | literal constant => [constant]
  | literals constants => constants
  | thisMember _ | typeMember _ | .variable _ | user => []

theorem decode_encode {value : Value} (fits : ∀ stored ∈ value.storedIds, stored.Fits)
    (noFloats : ∀ constant ∈ value.constants, constant.isFloating = false) :
    decode (encode value) = some value := by
  cases value with
  | thisMember path => exact congrArg (Option.map thisMember) (MemberPath.decode_encode fits)
  | typeMember path => exact congrArg (Option.map typeMember) (MemberPath.decode_encode fits)
  | «variable» parameter =>
    exact congrArg (Option.map Value.variable)
      (Id.decode_encode (fits _ (List.mem_singleton_self _)))
  | literal constant =>
    exact congrArg (Option.map literal)
      (Literal.decode_encode (noFloats _ (List.mem_singleton_self _)))
  | literals constants =>
    exact congrArg (Option.map literals)
      (Codec.decode_encode_list fun constant member => Literal.decode_encode (noFloats _ member))
  | user => rfl

end Value

namespace Criteria

def constants : Criteria → List Literal
  | .and left right | .or left right => left.constants ++ right.constants
  | operator source _ target => source.constants ++ target.constants
  | all | edgePoint _ => []

/-- Criteria are read back with any bound that exceeds their depth. -/
theorem ofJson?_toJson {criteria : Criteria} (fits : ∀ stored ∈ criteria.storedIds, stored.Fits)
    (noFloats : ∀ constant ∈ criteria.constants, constant.isFloating = false) {levels : Nat}
    (enough : criteria.toJson.depth < levels) : ofJson? levels criteria.toJson = some criteria := by
  induction criteria generalizing levels with
  | all =>
    cases levels with
    | zero => cases enough
    | succ levels => rfl
  | and left right inLeft inRight | or left right inLeft inRight =>
    rw [storedIds, List.forall_mem_append] at fits
    rw [constants, List.forall_mem_append] at noFloats
    cases levels with
    | zero => cases enough
    | succ levels =>
      simp only [toJson, Json.tagged, Json.depth, Json.depthOfFields, Json.depthOfItems] at enough
      have readLeft : ofJson? levels left.toJson = some left :=
        inLeft fits.1 noFloats.1 (by omega)
      have readRight : ofJson? levels right.toJson = some right :=
        inRight fits.2 noFloats.2 (by omega)
      simp [toJson, ofJson?, Json.tagged, Json.alternative?, readLeft, readRight]
  | operator source comparison target =>
    rw [storedIds, List.forall_mem_append] at fits
    rw [constants, List.forall_mem_append] at noFloats
    cases levels with
    | zero => cases enough
    | succ levels =>
      refine Json.read_record (by simp) ?_
      simp [Value.decode_encode fits.1 noFloats.1, Value.decode_encode fits.2 noFloats.2]
  | edgePoint path =>
    cases levels with
    | zero => cases enough
    | succ levels => exact congrArg (Option.map edgePoint) (MemberPath.decode_encode fits)

theorem decode_encode {criteria : Criteria} (fits : ∀ stored ∈ criteria.storedIds, stored.Fits)
    (noFloats : ∀ constant ∈ criteria.constants, constant.isFloating = false) :
    decode (encode criteria) = some criteria :=
  ofJson?_toJson fits noFloats (Nat.lt_succ_self _)

end Criteria

theorem OrderByMember.decode_encode {member : OrderByMember}
    (fits : ∀ stored ∈ member.path.storedIds, stored.Fits) :
    decode (encode member) = some member := by
  refine Json.read_record (by simp) ?_
  simp [MemberPath.decode_encode fits]

theorem OrderBy.decode_encode {ordering : OrderBy}
    (fits : ∀ stored ∈ ordering.storedIds, stored.Fits) :
    decode (encode ordering) = some ordering := by
  have members : ∀ member ∈ ordering.members, decode (encode member) = some member :=
    fun member among => OrderByMember.decode_encode fun stored inside =>
      fits stored (List.mem_flatMap_of_mem among inside)
  refine Json.read_record (by simp) ?_
  simp [Codec.decode_encode_list members]

instance : Codec.Solid OrderBy := ⟨fun _ => Json.noConfusion⟩

/-- An optional ordering is read back. -/
@[simp]
theorem OrderBy.optional_encode {ordering : Option OrderBy}
    (fits : ∀ stored ∈ ordering.elim [] storedIds, stored.Fits) :
    Codec.optional (some (encode ordering)) = some ordering := by
  refine Codec.optional_encode fun content isContent => OrderBy.decode_encode ?_
  cases isContent
  exact fits

end Criteria

section Elements

@[simp]
theorem Info.decode_encode {info : Info} (ordinal : info.ordinal < UInt32.size) :
    decode (encode info) = some info := by
  refine Json.read_record (by simp) ?_
  simp [decodeNumber_natCast ordinal]

@[simp]
theorem EnumerationLiteral.decode_encode (literal : EnumerationLiteral) :
    decode (encode literal) = some literal := by
  refine Json.read_record (by simp) ?_
  simp

theorem Enumeration.decode_encode {enumeration : Enumeration}
    (ordinal : enumeration.info.ordinal < UInt32.size) :
    decode (encode enumeration) = some enumeration := by
  refine Json.read_record (by simp) ?_
  simp [ordinal]

theorem Interface.decode_encode {interface : Interface}
    (ordinal : interface.info.ordinal < UInt32.size)
    (fits : ∀ stored ∈ interface.storedIds, stored.Fits) :
    decode (encode interface) = some interface := by
  simp only [storedIds, List.forall_mem_append, forall_mem_storedAll] at fits
  refine Json.read_record (by simp) ?_
  simp +contextual [ordinal, fits]

/-- A class is read back where its ordinal and its ids fit. -/
theorem Class.decode_encode {klass : Class} (ordinal : klass.info.ordinal < UInt32.size)
    (fits : ∀ stored ∈ klass.storedIds, stored.Fits) : decode (encode klass) = some klass := by
  simp only [storedIds, List.forall_mem_append, forall_mem_storedAll] at fits
  obtain ⟨⟨⟨⟨⟨⟨⟨superclass, -⟩, -⟩, -⟩, -⟩, -⟩, version⟩, versioned⟩ := id fits
  refine Json.read_record (by simp) ?_
  simp +contextual [ordinal, fits, Id.optional_encode superclass, Id.optional_encode version,
    Id.optional_encode versioned]

@[simp]
theorem DataType.decode_encode {type : DataType} (fits : ∀ stored ∈ type.storedIds, stored.Fits) :
    decode (encode type) = some type := by
  cases type with
  | primitive word => exact congrArg (Option.map primitive) (Vocabulary.decode_encode word)
  | enumeration id =>
    exact congrArg (Option.map enumeration)
      (Id.decode_encode (fits _ (List.mem_singleton_self _)))

@[simp]
theorem Validation.decode_encode (validation : Validation) :
    decode (encode validation) = some validation := by
  refine Json.read_record (by simp) ?_
  simp

theorem Property.decode_encode {property : Property}
    (fits : ∀ stored ∈ property.storedIds, stored.Fits) :
    decode (encode property) = some property := by
  rw [storedIds, List.forall_mem_cons] at fits
  refine Json.read_record (by simp) ?_
  simp [fits.1, DataType.decode_encode fits.2]

theorem EndSignature.decode_encode {signature : EndSignature}
    (fits : ∀ stored ∈ signature.storedIds, stored.Fits) :
    decode (encode signature) = some signature := by
  simp only [storedIds, List.forall_mem_cons] at fits
  refine Json.read_record (by simp) ?_
  simp [fits]

/-- An association is read back where, besides, its criteria has no floating constant. -/
theorem Association.decode_encode {association : Association}
    (ordinal : association.info.ordinal < UInt32.size)
    (fits : ∀ stored ∈ association.storedIds, stored.Fits)
    (noFloats : ∀ constant ∈ association.criteria.constants, constant.isFloating = false) :
    decode (encode association) = some association := by
  simp only [storedIds, List.forall_mem_cons, StoredId.fits_mk] at fits
  refine Json.read_record (by simp) ?_
  simp [ordinal, fits, Criteria.decode_encode fits.2.2 noFloats]

theorem AssociationEnd.decode_encode {associationEnd : AssociationEnd}
    (fits : ∀ stored ∈ associationEnd.storedIds, stored.Fits) :
    decode (encode associationEnd) = some associationEnd := by
  simp only [storedIds, List.forall_mem_cons, StoredId.fits_mk] at fits
  obtain ⟨-, -, -, -, ordering⟩ := id fits
  refine Json.read_record (by simp) ?_
  simp [fits, OrderBy.optional_encode ordering]

theorem ForeignKey.decode_encode {foreignKey : ForeignKey}
    (fits : ∀ stored ∈ foreignKey.storedIds, stored.Fits) :
    decode (encode foreignKey) = some foreignKey := by
  simp only [storedIds, List.forall_mem_cons, StoredId.fits_mk] at fits
  refine Json.read_record (by simp) ?_
  simp [fits]

end Elements

section Projections

@[simp]
theorem Reference.decode_encode {reference : Reference} (fits : reference.stored.Fits) :
    decode (encode reference) = some reference := by
  cases reference with
  | associationEnd id => exact congrArg (Option.map associationEnd) (Id.decode_encode fits)
  | signature id => exact congrArg (Option.map signature) (Id.decode_encode fits)

namespace ProjectionElement

mutual

/-- An element is read back with any bound that its depth does not exceed. -/
theorem ofJson?_toJson (element : ProjectionElement) (levels : Nat)
    (fits : ∀ stored ∈ element.storedIds, stored.Fits)
    (enough : element.toJson.depth ≤ levels) : ofJson? levels element.toJson = some element := by
  cases element with
  | property name header id =>
    cases levels with
    | zero => cases enough
    | succ levels =>
      have read := Id.decode_encode (fits _ (List.mem_singleton_self _))
      refine Json.read_record (by simp) ?_
      simp [read]
  | reference name target children =>
    rw [storedIds, List.forall_mem_cons] at fits
    cases levels with
    | zero => cases enough
    | succ levels =>
      rw [toJson] at enough
      have room : (Json.list (allToJson children)).depth ≤ levels :=
        Json.depth_le_of_tagged enough ("children", .list (allToJson children)) (by simp)
      have inside : Json.depthOfItems (allToJson children) ≤ levels := Nat.le_of_succ_le room
      refine Json.read_record (by simp) ?_
      simp [Reference.decode_encode fits.1,
        mapM_ofJson?_allToJson children levels fits.2 inside]
  | projection name target id =>
    simp only [storedIds, List.forall_mem_cons] at fits
    cases levels with
    | zero => cases enough
    | succ levels =>
      refine Json.read_record (by simp) ?_
      simp [Reference.decode_encode fits.1, Id.decode_encode fits.2.1]
termination_by sizeOf element

theorem mapM_ofJson?_allToJson (elements : List ProjectionElement) (levels : Nat)
    (fits : ∀ stored ∈ storedIdsOfAll elements, stored.Fits)
    (enough : Json.depthOfItems (allToJson elements) ≤ levels) :
    (allToJson elements).mapM (ofJson? levels) = some elements := by
  cases elements with
  | nil => rfl
  | cons element rest =>
    rw [storedIdsOfAll, List.forall_mem_append] at fits
    rw [allToJson, Json.depthOfItems, Nat.max_le] at enough
    rw [allToJson, List.mapM_cons, ofJson?_toJson element levels fits.1 enough.1,
      mapM_ofJson?_allToJson rest levels fits.2 enough.2]
    rfl
termination_by sizeOf elements

end

theorem decode_encode {element : ProjectionElement}
    (fits : ∀ stored ∈ element.storedIds, stored.Fits) : decode (encode element) = some element :=
  ofJson?_toJson element _ fits (Nat.le_refl _)

end ProjectionElement

/-- Ids fit in a list of elements where they fit in each element. -/
theorem ProjectionElement.forall_mem_storedIdsOfAll {elements : List ProjectionElement} :
    (∀ stored ∈ storedIdsOfAll elements, stored.Fits) ↔
      ∀ element ∈ elements, ∀ stored ∈ element.storedIds, stored.Fits := by
  induction elements with
  | nil => simp [storedIdsOfAll]
  | cons element rest ih =>
    rw [storedIdsOfAll, List.forall_mem_append, ih, List.forall_mem_cons]

theorem Projection.decode_encode {projection : Projection}
    (ordinal : projection.info.ordinal < UInt32.size)
    (fits : ∀ stored ∈ projection.storedIds, stored.Fits) :
    decode (encode projection) = some projection := by
  rw [storedIds, List.forall_mem_cons, ProjectionElement.forall_mem_storedIdsOfAll] at fits
  have children : ∀ element ∈ projection.children, decode (encode element) = some element :=
    fun element among => ProjectionElement.decode_encode (fits.2 element among)
  refine Json.read_record (by simp) ?_
  simp [ordinal, fits.1, Codec.decode_encode_list children]

end Projections

section Services

theorem ServiceGroup.decode_encode {group : ServiceGroup}
    (ordinal : group.info.ordinal < UInt32.size)
    (fits : ∀ stored ∈ group.storedIds, stored.Fits) : decode (encode group) = some group := by
  rw [storedIds, List.forall_mem_cons, forall_mem_storedAll, StoredId.fits_mk] at fits
  refine Json.read_record (by simp) ?_
  simp +contextual [ordinal, fits]

theorem UrlSegment.decode_encode {segment : UrlSegment}
    (fits : ∀ id ∈ segment.parameter?, id.value < UInt32.size) :
    decode (encode segment) = some segment := by
  cases segment with
  | constant content => rfl
  | parameter id => exact congrArg (Option.map parameter) (Id.decode_encode (fits id rfl))

/-- A url is read back with the ids of its parameters where they fit. -/
theorem Url.decode_encode {url : Url} (fits : ∀ stored ∈ url.storedIds, stored.Fits) :
    decode (encode url) = some url := by
  simp only [storedIds, parameters, List.forall_mem_cons, List.forall_mem_append,
    forall_mem_storedAll] at fits
  obtain ⟨group, ⟨inPath, inQuery⟩, services⟩ := fits
  have path : ∀ segment ∈ url.path, decode (encode segment) = some segment :=
    fun segment among => UrlSegment.decode_encode fun id isParameter =>
      inPath id (List.mem_filterMap.mpr ⟨segment, among, isParameter⟩)
  refine Json.read_record (by simp) ?_
  simp [Id.decode_encode group, Codec.decode_encode_list path, Id.decode_encode_all inQuery,
    Id.decode_encode_all services]

theorem Parameter.decode_encode {parameter : Parameter}
    (fits : ∀ stored ∈ parameter.storedIds, stored.Fits) :
    decode (encode parameter) = some parameter := by
  rw [storedIds, List.forall_mem_cons] at fits
  refine Json.read_record (by simp) ?_
  simp [Id.decode_encode fits.1, DataType.decode_encode fits.2]

theorem Clause.decode_encode {clause : Clause}
    (fits : ∀ stored ∈ clause.criteria.storedIds, stored.Fits)
    (noFloats : ∀ constant ∈ clause.criteria.constants, constant.isFloating = false) :
    decode (encode clause) = some clause := by
  refine Json.read_record (by simp) ?_
  simp [Criteria.decode_encode fits noFloats]

def Service.constants (service : Service) : List Literal :=
  service.clauses.flatMap (·.criteria.constants)

/-- A service is read back where no clause has a floating constant. -/
theorem Service.decode_encode {service : Service}
    (fits : ∀ stored ∈ service.storedIds, stored.Fits)
    (noFloats : ∀ constant ∈ service.constants, constant.isFloating = false) :
    decode (encode service) = some service := by
  simp only [storedIds, List.forall_mem_cons, List.forall_mem_append,
    forall_mem_storedAll] at fits
  obtain ⟨url, ⟨inClauses, projection⟩, ordering⟩ := fits
  have clauses : ∀ clause ∈ service.clauses, decode (encode clause) = some clause :=
    fun clause among => Clause.decode_encode
      (fun stored inside => inClauses stored (List.mem_flatMap_of_mem among inside))
      (fun constant inside => noFloats constant (List.mem_flatMap_of_mem among inside))
  refine Json.read_record (by simp) ?_
  simp [Id.decode_encode url, Codec.decode_encode_list clauses, Id.optional_encode projection,
    OrderBy.optional_encode ordering]

end Services

namespace Parts

/-- What the top-level elements have in common, kind by kind. -/
def infos (parts : Parts) : List Info :=
  parts.enumerations.map (·.info) ++ parts.interfaces.map (·.info) ++
    parts.classes.map (·.info) ++ parts.associations.map (·.info) ++
    parts.projections.map (·.info) ++ parts.serviceGroups.map (·.info)

/-- The written forms of all ids and ordinals are numbers of 32 bits. -/
structure Fits (parts : Parts) : Prop where
  ids : ∀ stored ∈ parts.storedIds, stored.Fits
  ordinals : ∀ info ∈ parts.infos, info.ordinal < UInt32.size

def constants (parts : Parts) : List Literal :=
  parts.associations.flatMap (·.criteria.constants) ++ parts.services.flatMap Service.constants

/-- Parts without floating-point constants are read back. -/
theorem decode_encode {parts : Parts} (fits : parts.Fits)
    (noFloats : ∀ constant ∈ parts.constants, constant.isFloating = false) :
    decode (encode parts) = some parts := by
  obtain ⟨ids, ordinals⟩ := fits
  simp only [storedIds, List.forall_mem_append, List.forall_mem_flatMap] at ids
  simp only [infos, List.forall_mem_append, List.forall_mem_map] at ordinals
  simp only [constants, List.forall_mem_append, List.forall_mem_flatMap] at noFloats
  obtain ⟨⟨⟨⟨⟨⟨⟨⟨⟨⟨⟨interfaces, classes⟩, properties⟩, signatures⟩, associations⟩, ends⟩, keys⟩,
    projections⟩, groups⟩, urls⟩, parameters⟩, services⟩ := ids
  obtain ⟨⟨⟨⟨⟨ofEnumerations, ofInterfaces⟩, ofClasses⟩, ofAssociations⟩, ofProjections⟩,
    ofGroups⟩ := ordinals
  refine Json.read_record (by simp) ?_
  simp [
    Codec.decode_encode_list fun record member =>
      Enumeration.decode_encode (ofEnumerations record member),
    Codec.decode_encode_list fun record member =>
      Interface.decode_encode (ofInterfaces record member) (interfaces record member),
    Codec.decode_encode_list fun record member =>
      Class.decode_encode (ofClasses record member) (classes record member),
    Codec.decode_encode_list fun record member => Property.decode_encode (properties record member),
    Codec.decode_encode_list fun record member =>
      EndSignature.decode_encode (signatures record member),
    Codec.decode_encode_list fun record member =>
      Association.decode_encode (ofAssociations record member) (associations record member)
        (noFloats.1 record member),
    Codec.decode_encode_list fun record member =>
      AssociationEnd.decode_encode (ends record member),
    Codec.decode_encode_list fun record member => ForeignKey.decode_encode (keys record member),
    Codec.decode_encode_list fun record member =>
      Projection.decode_encode (ofProjections record member) (projections record member),
    Codec.decode_encode_list fun record member =>
      ServiceGroup.decode_encode (ofGroups record member) (groups record member),
    Codec.decode_encode_list fun record member => Url.decode_encode (urls record member),
    Codec.decode_encode_list fun record member =>
      Parameter.decode_encode (parameters record member),
    Codec.decode_encode_list fun record member =>
      Service.decode_encode (services record member) (noFloats.2 record member)]

/-- The headers are those of the top-level elements. -/
theorem infos_eq (parts : Parts) : parts.infos = parts.topLevelByKind.map parts.info := by
  have ofKind {kind : RecordKind} {α : Type} [Inhabited α] (records : List α)
      (header : α → Info) (wrap : Id kind → TopLevelId)
      (same : ∀ id, parts.info (wrap id) = header (records.getD id.value default)) :
      records.map header = (ids records).map (parts.info ∘ wrap) := by
    refine List.ext_getElem (by simp [ids]) fun position inside _ => ?_
    rw [List.length_map] at inside
    simp [ids, same, inside]
  simp only [infos, topLevelByKind, List.map_append, List.map_map]
  rw [ofKind parts.enumerations _ .enumeration fun _ => rfl,
    ofKind parts.interfaces _ .interface fun _ => rfl, ofKind parts.classes _ .klass fun _ => rfl,
    ofKind parts.associations _ .association fun _ => rfl,
    ofKind parts.projections _ .projection fun _ => rfl,
    ofKind parts.serviceGroups _ .serviceGroup fun _ => rfl]

/-- The records of each kind and the top-level elements can be counted with 32 bits. -/
structure Countable (parts : Parts) : Prop where
  records : ∀ kind, parts.size kind ≤ UInt32.size
  elements : parts.topLevelByKind.length ≤ UInt32.size

end Parts
end Model

/-- The ids of a model that was assembled are below the numbers of its records, and the ordinals
below the number of its elements. -/
theorem DomainModel.AssembledFrom.fits {model : DomainModel} {workspace : Workspace}
    {units : List CompilationUnit} {recorded : List RecordedDeclaration}
    {fragments : List CompilationUnit}
    (assembled : model.AssembledFrom units recorded fragments workspace)
    (countable : model.parts.Countable) : model.parts.Fits := by
  have intact := assembled.made.intact assembled.covers assembled.sound
  constructor
  case ids =>
    intro stored member
    exact Nat.lt_of_lt_of_le (intact.storedIds stored member) (countable.records _)
  case ordinals =>
    intro info member
    rw [Model.Parts.infos_eq, List.mem_map] at member
    obtain ⟨id, member, rfl⟩ := member
    have ordinal : (model.parts.info id).ordinal ∈ List.range recorded.length := by
      rw [← assembled.map_ordinal]
      exact List.mem_map_of_mem (assembled.elements_perm.mem_iff.mpr member)
    have total : recorded.length = model.parts.topLevelByKind.length := by
      simpa using assembled.elements_perm.length_eq
    rw [List.mem_range, total] at ordinal
    exact Nat.lt_of_lt_of_le ordinal countable.elements

/-- Sources and models without floating-point constants are read as they were written, and the
parts read from the JSON form of a compiled model give the model again, with its index of
names. -/
theorem written_forms_read :
    (∀ tree : Syntax.SourceTree,
      (∀ constant ∈ tree.literals, constant.isFloating = false) →
        decode (encode tree) = some tree) ∧
    (∀ parts : Model.Parts, parts.Fits →
      (∀ constant ∈ parts.constants, constant.isFloating = false) →
        decode (encode parts) = some parts) ∧
    ∀ (trees : List (String × Syntax.SourceTree)) (configuration : Configuration)
      (compilation : Compilation) (model : DomainModel),
      compile trees configuration = .ok compilation → compilation.model = some model →
      model.parts.Countable →
      (∀ constant ∈ model.parts.constants, constant.isFloating = false) →
        ∃ parts : Model.Parts, (model.toJson.field? "parts").bind decode = some parts ∧
          (DomainModel.ofParts parts).names = model.names ∧ DomainModel.ofParts parts = model := by
  refine ⟨fun tree noFloats => Syntax.SourceTree.decode_encode noFloats,
    fun parts fits noFloats => Model.Parts.decode_encode fits noFloats, ?_⟩
  intro trees configuration compilation model compiled found countable noFloats
  obtain ⟨workspace, recorded, fragments, assembled, -, -⟩ :=
    exists_assembledFrom_of_compile compiled found
  have read : (model.toJson.field? "parts").bind decode = some model.parts :=
    Model.Parts.decode_encode (assembled.fits countable) noFloats
  exact ⟨model.parts, read, congrArg (·.names) assembled.ofParts_parts, assembled.ofParts_parts⟩

/-- The documents and their model are read as they were written. -/
theorem written_forms_read_documents :
    (∀ entry ∈ Sample.trees, decode (encode entry.2) = some entry.2) ∧
    ∃ compilation model, compile Sample.trees {} = .ok compilation ∧
      compilation.model = some model ∧ decode (encode model.parts) = some model.parts ∧
      ∃ parts : Model.Parts, (model.toJson.field? "parts").bind decode = some parts ∧
        (DomainModel.ofParts parts).names = model.names := by
  obtain ⟨ofTrees, ofParts, ofModels⟩ := written_forms_read
  have view : ((compile Sample.trees {}).toOption.bind (·.model)).map (fun model =>
      ([RecordKind.enumeration, .interface, .klass, .property, .endSignature, .association,
          .associationEnd, .projection, .serviceGroup, .url, .parameter, .service].all
          fun kind => model.parts.size kind ≤ UInt32.size,
        decide (model.parts.topLevelByKind.length ≤ UInt32.size),
        model.parts.constants.all (!·.isFloating))) = some (true, true, true) := by cbv
  obtain ⟨compilation, model, compiled, found, view⟩ := exists_model_of_map_eq_some view
  simp only [Prod.mk.injEq, List.all_eq_true, decide_eq_true_eq, Bool.not_eq_true'] at view
  obtain ⟨sizes, elements, noFloats⟩ := view
  have countable : model.parts.Countable :=
    ⟨fun kind => sizes kind (by cases kind <;> decide), elements⟩
  obtain ⟨workspace, recorded, fragments, assembled, -, -⟩ :=
    exists_assembledFrom_of_compile compiled found
  obtain ⟨parts, read, names, -⟩ := ofModels _ _ _ _ compiled found countable noFloats
  refine ⟨fun entry member => ofTrees entry.2 ?_, compilation, model, compiled, found,
    ofParts _ (assembled.fits countable) noFloats, parts, read, names⟩
  have literals : ∀ entry ∈ Sample.trees, ∀ constant ∈ entry.2.literals,
      constant.isFloating = false := by decide
  exact literals entry member

end DomainLang
