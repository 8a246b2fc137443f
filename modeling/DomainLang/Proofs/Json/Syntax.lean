import DomainLang.Proofs.Json.Codec
import DomainLang.Syntax.Tree

/-!
# Source trees are read as they were written

Every tree without floating-point constants is read back from its JSON form. Each record needs
one lemma, which is used for the records it is part of. Criteria and elements of projections
nest; they are read with a bound on the nesting, and the depth of the JSON form is enough.
-/

namespace DomainLang

namespace Literal

/-- Whether the constant is a floating-point number. -/
def isFloating : Literal → Bool
  | floating _ => true
  | _ => false

/-- Constants are read back, floating-point numbers apart. -/
theorem decode_encode {constant : Literal} (noFloats : constant.isFloating = false) :
    decode (encode constant) = some constant := by
  cases constant with
  | integer value => exact congrArg (Option.map integer) (Codec.decode_encode_int64 value)
  | floating value => cases noFloats
  | string _ | boolean _ | null => rfl

end Literal

@[simp]
theorem Span.decode_encode (span : Span) : decode (encode span) = some span := by
  refine Json.read_record (by simp) ?_
  simp

@[simp]
theorem NodeId.decode_encode (id : NodeId) : decode (encode id) = some id :=
  congrArg (Option.map NodeId.mk) (Codec.decode_encode_uint32 id.value)

namespace Syntax

section Nodes

attribute [simp] Node.fields

@[simp]
theorem Node.ofComponents?_encode (node : Node) :
    ofComponents? (some (encode node.id)) (some (encode node.span)) = some node := by
  simp [ofComponents?]

@[simp]
theorem Node.decode_encode (node : Node) : decode (encode node) = some node := by
  refine Json.read_record (by simp) ?_
  exact node.ofComponents?_encode

@[simp]
theorem Identifier.decode_encode (identifier : Identifier) :
    decode (encode identifier) = some identifier := by
  refine Json.read_record (by simp) ?_
  simp

instance : Codec.Solid Identifier := ⟨fun _ => Json.noConfusion⟩

end Nodes

section Classifiers

@[simp]
theorem EnumerationLiteral.decode_encode (literal : EnumerationLiteral) :
    decode (encode literal) = some literal := by
  refine Json.read_record (by simp) ?_
  simp

@[simp]
theorem Enumeration.decode_encode (enumeration : Enumeration) :
    decode (encode enumeration) = some enumeration := by
  refine Json.read_record (by simp) ?_
  simp

@[simp]
theorem ModifierMark.decode_encode (mark : ModifierMark) : decode (encode mark) = some mark := by
  refine Json.read_record (by simp) ?_
  simp

@[simp]
theorem PropertyType.decode_encode (type : PropertyType) : decode (encode type) = some type := by
  cases type with
  | primitive word => exact congrArg (Option.map primitive) (Vocabulary.decode_encode word)
  | enumeration name => exact congrArg (Option.map enumeration) name.decode_encode

@[simp]
theorem Validation.decode_encode (validation : Validation) :
    decode (encode validation) = some validation := by
  refine Json.read_record (by simp) ?_
  simp

@[simp]
theorem Property.decode_encode (property : Property) :
    decode (encode property) = some property := by
  refine Json.read_record (by simp) ?_
  simp

@[simp]
theorem EndSignature.decode_encode (signature : EndSignature) :
    decode (encode signature) = some signature := by
  refine Json.read_record (by simp) ?_
  simp

@[simp]
theorem Member.decode_encode (member : Member) : decode (encode member) = some member := by
  cases member with
  | property declaration => exact congrArg (Option.map property) declaration.decode_encode
  | endSignature signature => exact congrArg (Option.map endSignature) signature.decode_encode

@[simp]
theorem Interface.decode_encode (interface : Interface) :
    decode (encode interface) = some interface := by
  refine Json.read_record (by simp) ?_
  simp

@[simp]
theorem AbstractClause.decode_encode (clause : AbstractClause) :
    decode (encode clause) = some clause := by
  refine Json.read_record (by simp) ?_
  simp

instance : Codec.Solid AbstractClause := ⟨fun _ => Json.noConfusion⟩

@[simp]
theorem Class.decode_encode (declaration : Class) :
    decode (encode declaration) = some declaration := by
  refine Json.read_record (by simp) ?_
  simp

end Classifiers

section Criteria

@[simp]
theorem ThisPath.decode_encode (path : ThisPath) : decode (encode path) = some path := by
  refine Json.read_record (by simp [fields]) ?_
  simp [fields]

@[simp]
theorem TypePath.decode_encode (path : TypePath) : decode (encode path) = some path := by
  refine Json.read_record (by simp [fields]) ?_
  simp [fields]

theorem LiteralNode.decode_encode {constant : LiteralNode}
    (noFloats : constant.value.isFloating = false) :
    decode (encode constant) = some constant := by
  refine Json.read_record (by simp) ?_
  simp [Literal.decode_encode noFloats]

namespace Value

def literals : Value → List Literal
  | literal constant => [constant.value]
  | literalList _ values => values.map (·.value)
  | _ => []

theorem decode_encode {value : Value}
    (noFloats : ∀ constant ∈ value.literals, constant.isFloating = false) :
    decode (encode value) = some value := by
  cases value with
  | thisMember path => exact congrArg (Option.map thisMember) path.decode_encode
  | typeMember path => exact congrArg (Option.map typeMember) path.decode_encode
  | «variable» node name =>
    refine Json.read_record (by simp) ?_
    simp
  | literal constant =>
    exact congrArg (Option.map literal)
      (LiteralNode.decode_encode (noFloats _ (by simp [literals])))
  | literalList node values =>
    have each : ∀ constant ∈ values, decode (encode constant) = some constant :=
      fun constant member => LiteralNode.decode_encode (noFloats _ (List.mem_map_of_mem member))
    refine Json.read_record (by simp) ?_
    simp [Codec.decode_encode_list each]
  | user node => exact congrArg (Option.map user) node.decode_encode

end Value

@[simp]
theorem OperatorMark.decode_encode (mark : OperatorMark) : decode (encode mark) = some mark := by
  refine Json.read_record (by simp) ?_
  simp

namespace Criteria

def literals : Criteria → List Literal
  | .and _ left right | .or _ left right => left.literals ++ right.literals
  | operator _ source _ target => source.literals ++ target.literals
  | all _ | edgePoint _ _ => []

/-- Criteria are read back with any bound that their depth does not exceed. -/
theorem ofJson?_toJson {criteria : Criteria}
    (noFloats : ∀ constant ∈ criteria.literals, constant.isFloating = false) {levels : Nat}
    (enough : criteria.toJson.depth ≤ levels) : ofJson? levels criteria.toJson = some criteria := by
  induction criteria generalizing levels with
  | all node =>
    cases levels with
    | zero => cases enough
    | succ levels => exact congrArg (Option.map all) node.decode_encode
  | and node left right inLeft inRight | or node left right inLeft inRight =>
    rw [literals, List.forall_mem_append] at noFloats
    cases levels with
    | zero => cases enough
    | succ levels =>
      rw [toJson] at enough
      have roomLeft : left.toJson.depth ≤ levels :=
        Json.depth_le_of_tagged enough ("left", left.toJson) (by simp)
      have roomRight : right.toJson.depth ≤ levels :=
        Json.depth_le_of_tagged enough ("right", right.toJson) (by simp)
      refine Json.read_record (by simp) ?_
      simp [inLeft noFloats.1 roomLeft, inRight noFloats.2 roomRight]
  | operator node source mark target =>
    rw [literals, List.forall_mem_append] at noFloats
    cases levels with
    | zero => cases enough
    | succ levels =>
      refine Json.read_record (by simp) ?_
      simp [Value.decode_encode noFloats.1, Value.decode_encode noFloats.2]
  | edgePoint node member =>
    cases levels with
    | zero => cases enough
    | succ levels =>
      refine Json.read_record (by simp) ?_
      simp

theorem decode_encode {criteria : Criteria}
    (noFloats : ∀ constant ∈ criteria.literals, constant.isFloating = false) :
    decode (encode criteria) = some criteria :=
  ofJson?_toJson noFloats (Nat.le_refl _)

end Criteria

@[simp]
theorem OrderByMember.decode_encode (member : OrderByMember) :
    decode (encode member) = some member := by
  refine Json.read_record (by simp) ?_
  simp

@[simp]
theorem OrderBy.decode_encode (ordering : OrderBy) : decode (encode ordering) = some ordering := by
  refine Json.read_record (by simp) ?_
  simp

instance : Codec.Solid OrderBy := ⟨fun _ => Json.noConfusion⟩

end Criteria

section Associations

@[simp]
theorem AssociationEnd.decode_encode (declaration : AssociationEnd) :
    decode (encode declaration) = some declaration := by
  refine Json.read_record (by simp) ?_
  simp

theorem Association.decode_encode {association : Association}
    (noFloats : ∀ constant ∈ association.relationship.literals, constant.isFloating = false) :
    decode (encode association) = some association := by
  refine Json.read_record (by simp) ?_
  simp [Criteria.decode_encode noFloats]

end Associations

section Projections

namespace ProjectionElement

mutual

/-- An element is read back with any bound that its depth does not exceed. -/
theorem ofJson?_toJson (element : ProjectionElement) (levels : Nat)
    (enough : element.toJson.depth ≤ levels) : ofJson? levels element.toJson = some element := by
  cases element with
  | property node name header =>
    cases levels with
    | zero => cases enough
    | succ levels =>
      refine Json.read_record (by simp) ?_
      simp
  | reference node name children =>
    cases levels with
    | zero => cases enough
    | succ levels =>
      rw [toJson] at enough
      have room : (Json.list (allToJson children)).depth ≤ levels :=
        Json.depth_le_of_tagged enough ("children", .list (allToJson children)) (by simp)
      have inside : Json.depthOfItems (allToJson children) ≤ levels :=
        Nat.le_of_succ_le room
      refine Json.read_record (by simp) ?_
      simp [mapM_ofJson?_allToJson children levels inside]
  | projection node name target =>
    cases levels with
    | zero => cases enough
    | succ levels =>
      refine Json.read_record (by simp) ?_
      simp
termination_by sizeOf element

theorem mapM_ofJson?_allToJson (elements : List ProjectionElement) (levels : Nat)
    (enough : Json.depthOfItems (allToJson elements) ≤ levels) :
    (allToJson elements).mapM (ofJson? levels) = some elements := by
  cases elements with
  | nil => rfl
  | cons element rest =>
    rw [allToJson, Json.depthOfItems, Nat.max_le] at enough
    rw [allToJson, List.mapM_cons, ofJson?_toJson element levels enough.1,
      mapM_ofJson?_allToJson rest levels enough.2]
    rfl
termination_by sizeOf elements

end

@[simp]
theorem decode_encode (element : ProjectionElement) : decode (encode element) = some element :=
  ofJson?_toJson element _ (Nat.le_refl _)

end ProjectionElement

@[simp]
theorem Projection.decode_encode (projection : Projection) :
    decode (encode projection) = some projection := by
  refine Json.read_record (by simp) ?_
  simp

end Projections

section Services

@[simp]
theorem Parameter.decode_encode (parameter : Parameter) :
    decode (encode parameter) = some parameter := by
  refine Json.read_record (by simp) ?_
  simp

@[simp]
theorem UrlSegment.decode_encode (segment : UrlSegment) :
    decode (encode segment) = some segment := by
  cases segment with
  | constant name => exact congrArg (Option.map constant) name.decode_encode
  | parameter declaration => exact congrArg (Option.map parameter) declaration.decode_encode

theorem Clause.decode_encode {clause : Clause}
    (noFloats : ∀ constant ∈ clause.criteria.literals, constant.isFloating = false) :
    decode (encode clause) = some clause := by
  refine Json.read_record (by simp) ?_
  simp [Criteria.decode_encode noFloats]

def Service.literals (service : Service) : List Literal :=
  service.clauses.flatMap (·.criteria.literals)

theorem Service.decode_encode {service : Service}
    (noFloats : ∀ constant ∈ service.literals, constant.isFloating = false) :
    decode (encode service) = some service := by
  have clauses : ∀ clause ∈ service.clauses, decode (encode clause) = some clause :=
    fun clause member => Clause.decode_encode fun constant inside =>
      noFloats constant (List.mem_flatMap_of_mem member inside)
  refine Json.read_record (by simp) ?_
  simp [Codec.decode_encode_list clauses]

def Url.literals (url : Url) : List Literal :=
  url.services.flatMap Service.literals

theorem Url.decode_encode {url : Url}
    (noFloats : ∀ constant ∈ url.literals, constant.isFloating = false) :
    decode (encode url) = some url := by
  have services : ∀ service ∈ url.services, decode (encode service) = some service :=
    fun service member => Service.decode_encode fun constant inside =>
      noFloats constant (List.mem_flatMap_of_mem member inside)
  refine Json.read_record (by simp) ?_
  simp [Codec.decode_encode_list services]

def ServiceGroup.literals (group : ServiceGroup) : List Literal :=
  group.urls.flatMap Url.literals

theorem ServiceGroup.decode_encode {group : ServiceGroup}
    (noFloats : ∀ constant ∈ group.literals, constant.isFloating = false) :
    decode (encode group) = some group := by
  have urls : ∀ url ∈ group.urls, decode (encode url) = some url :=
    fun url member => Url.decode_encode fun constant inside =>
      noFloats constant (List.mem_flatMap_of_mem member inside)
  refine Json.read_record (by simp) ?_
  simp [Codec.decode_encode_list urls]

end Services

section Trees

@[simp]
theorem Package.decode_encode (package : Package) : decode (encode package) = some package := by
  refine Json.read_record (by simp) ?_
  simp

def Declaration.literals : Declaration → List Literal
  | association declaration => declaration.relationship.literals
  | serviceGroup declaration => declaration.literals
  | enumeration _ | interface _ | klass _ | projection _ => []

theorem Declaration.decode_encode {declaration : Declaration}
    (noFloats : ∀ constant ∈ declaration.literals, constant.isFloating = false) :
    decode (encode declaration) = some declaration := by
  cases declaration with
  | enumeration content => exact congrArg (Option.map enumeration) content.decode_encode
  | interface content => exact congrArg (Option.map interface) content.decode_encode
  | klass content => exact congrArg (Option.map klass) content.decode_encode
  | association content =>
    exact congrArg (Option.map association) (Association.decode_encode noFloats)
  | projection content => exact congrArg (Option.map projection) content.decode_encode
  | serviceGroup content =>
    exact congrArg (Option.map serviceGroup) (ServiceGroup.decode_encode noFloats)

/-- The constants of a tree. -/
def SourceTree.literals (tree : SourceTree) : List Literal :=
  tree.elements.flatMap Declaration.literals

/-- A tree without floating-point constants is read back. -/
theorem SourceTree.decode_encode {tree : SourceTree}
    (noFloats : ∀ constant ∈ tree.literals, constant.isFloating = false) :
    decode (encode tree) = some tree := by
  have elements : ∀ declaration ∈ tree.elements, decode (encode declaration) = some declaration :=
    fun declaration member => Declaration.decode_encode fun constant inside =>
      noFloats constant (List.mem_flatMap_of_mem member inside)
  refine Json.read_record (by simp) ?_
  simp [Codec.decode_encode_list elements]

end Trees

end Syntax
end DomainLang
