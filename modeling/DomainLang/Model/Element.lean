import DomainLang.Model.Criteria
import DomainLang.Source.Span

/-!
# Enumerations, classifiers and associations of a model

Records refer to each other by id. A classifier lists the properties it declares
and, separately, all properties it has, inherited ones included.
-/

namespace DomainLang.Model

/-- What every top-level element has. -/
structure Info where
  name : String
  package : String
  /-- The position in declaration order. -/
  ordinal : Nat
  /-- The unit that declared the element. -/
  sourceName : String
  span : Span
  deriving DecidableEq, Repr, Inhabited

structure EnumerationLiteral where
  name : String
  prettyName : Option String
  deriving DecidableEq, Repr, Inhabited

structure Enumeration where
  info : Info
  literals : List EnumerationLiteral
  deriving DecidableEq, Repr, Inhabited

structure Interface where
  info : Info
  modifiers : List Modifier
  interfaces : List InterfaceId
  declaredProperties : List PropertyId
  properties : List PropertyId
  endSignatures : List EndSignatureId
  deriving DecidableEq, Repr, Inhabited

structure Class where
  info : Info
  isUser : Bool
  isAbstract : Bool
  inheritance : Option InheritanceType
  superclass : Option ClassId
  modifiers : List Modifier
  interfaces : List InterfaceId
  declaredProperties : List PropertyId
  properties : List PropertyId
  endSignatures : List EndSignatureId
  /-- The ends that the class itself can be navigated along. -/
  associationEnds : List AssociationEndId
  versionEnd : Option AssociationEndId
  versionedEnd : Option AssociationEndId
  deriving DecidableEq, Repr, Inhabited

/-- The type of a property or parameter. -/
inductive DataType where
  | primitive (type : Primitive)
  | enumeration (id : EnumerationId)
  deriving DecidableEq, Repr, Inhabited

/-- A bound on the values of a property. -/
structure Validation where
  kind : ValidationKind
  value : Int64
  deriving DecidableEq, Repr, Inhabited

/-- A property of a classifier. -/
structure Property where
  name : String
  owner : ClassifierId
  dataType : DataType
  optional : Bool
  modifiers : List Modifier
  validations : List Validation
  span : Span
  deriving DecidableEq, Repr, Inhabited

/-- An end signature of a classifier. -/
structure EndSignature where
  name : String
  owner : ClassifierId
  target : ClassifierId
  multiplicity : Multiplicity
  modifiers : List Modifier
  span : Span
  deriving DecidableEq, Repr, Inhabited

structure Association where
  info : Info
  source : AssociationEndId
  target : AssociationEndId
  criteria : Criteria
  join : JoinKind
  deriving DecidableEq, Repr, Inhabited

/-- One end of an association; it leads from `owner` to `target`. -/
structure AssociationEnd where
  name : String
  association : AssociationId
  owner : ClassId
  target : ClassId
  multiplicity : Multiplicity
  modifiers : List Modifier
  orderBy : Option OrderBy
  opposite : AssociationEndId
  span : Span
  deriving DecidableEq, Repr, Inhabited

/-- A property of the owner of a to-one end that equals a key of its target. -/
structure ForeignKey where
  associationEnd : AssociationEndId
  foreignKey : PropertyId
  key : PropertyId
  deriving DecidableEq, Repr, Inhabited

instance : Codec Info where
  encode info := .object [("name", encode info.name), ("package", encode info.package),
    ("ordinal", .integer info.ordinal), ("source_name", encode info.sourceName),
    ("span", encode info.span)]
  decode json := do
    let [name, package, ordinal, sourceName, span] ←
      json.components? ["name", "package", "ordinal", "source_name", "span"] | none
    return ⟨← Codec.required name, ← Codec.required package, ← ordinal.bind decodeNumber,
      ← Codec.required sourceName, ← Codec.required span⟩

instance : Codec EnumerationLiteral where
  encode literal := .object [("name", encode literal.name),
    ("pretty_name", encode literal.prettyName)]
  decode json := do
    let [name, prettyName] ← json.components? ["name", "pretty_name"] | none
    return ⟨← Codec.required name, ← Codec.optional prettyName⟩

instance : Codec Enumeration where
  encode enumeration := .object [("info", encode enumeration.info),
    ("literals", encode enumeration.literals)]
  decode json := do
    let [info, literals] ← json.components? ["info", "literals"] | none
    return ⟨← Codec.required info, ← Codec.required literals⟩

instance : Codec Interface where
  encode interface := .object [("info", encode interface.info),
    ("modifiers", encode interface.modifiers), ("interfaces", encode interface.interfaces),
    ("declared_properties", encode interface.declaredProperties),
    ("properties", encode interface.properties),
    ("end_signatures", encode interface.endSignatures)]
  decode json := do
    let [info, modifiers, interfaces, declaredProperties, properties, endSignatures] ←
      json.components? ["info", "modifiers", "interfaces", "declared_properties", "properties",
        "end_signatures"] | none
    return ⟨← Codec.required info, ← Codec.required modifiers, ← Codec.required interfaces,
      ← Codec.required declaredProperties, ← Codec.required properties,
      ← Codec.required endSignatures⟩

namespace Class

/-- Whether the class has a modifier. -/
def has (klass : Class) (modifier : Modifier) : Bool :=
  modifier ∈ klass.modifiers

/-- Whether instances are not stored. -/
def isTransient (klass : Class) : Bool :=
  klass.has .transient

instance : Codec Class where
  encode klass := .object [("info", encode klass.info), ("is_user", encode klass.isUser),
    ("is_abstract", encode klass.isAbstract), ("inheritance", encode klass.inheritance),
    ("superclass", encode klass.superclass), ("modifiers", encode klass.modifiers),
    ("interfaces", encode klass.interfaces),
    ("declared_properties", encode klass.declaredProperties),
    ("properties", encode klass.properties), ("end_signatures", encode klass.endSignatures),
    ("association_ends", encode klass.associationEnds),
    ("version_end", encode klass.versionEnd), ("versioned_end", encode klass.versionedEnd)]
  decode json := do
    let [info, isUser, isAbstract, inheritance, superclass, modifiers, interfaces,
        declaredProperties, properties, endSignatures, associationEnds, versionEnd,
        versionedEnd] ←
      json.components? ["info", "is_user", "is_abstract", "inheritance", "superclass",
        "modifiers", "interfaces", "declared_properties", "properties", "end_signatures",
        "association_ends", "version_end", "versioned_end"] | none
    return ⟨← Codec.required info, ← Codec.required isUser, ← Codec.required isAbstract,
      ← Codec.optional inheritance, ← Codec.optional superclass, ← Codec.required modifiers,
      ← Codec.required interfaces, ← Codec.required declaredProperties,
      ← Codec.required properties, ← Codec.required endSignatures,
      ← Codec.required associationEnds, ← Codec.optional versionEnd,
      ← Codec.optional versionedEnd⟩

end Class

namespace DataType

/-- The primitive, for a type that is one. -/
def primitive? : DataType → Option Primitive
  | primitive type => some type
  | enumeration _ => none

instance : Codec DataType where
  encode
    | primitive type => .tagged "Primitive" (encode type)
    | enumeration id => .tagged "Enumeration" (encode id)
  decode json :=
    match json.alternative? with
    | some ("Primitive", some content) => (decode content).map primitive
    | some ("Enumeration", some content) => (decode content).map enumeration
    | _ => none

end DataType

instance : Codec Validation where
  encode validation := .object [("kind", encode validation.kind),
    ("value", encode validation.value)]
  decode json := do
    let [kind, value] ← json.components? ["kind", "value"] | none
    return ⟨← Codec.required kind, ← Codec.required value⟩

namespace Property

/-- Whether the property has a modifier. -/
def has (property : Property) (modifier : Modifier) : Bool :=
  modifier ∈ property.modifiers

instance : Codec Property where
  encode property := .object [("name", encode property.name), ("owner", encode property.owner),
    ("data_type", encode property.dataType), ("optional", encode property.optional),
    ("modifiers", encode property.modifiers), ("validations", encode property.validations),
    ("span", encode property.span)]
  decode json := do
    let [name, owner, dataType, optional, modifiers, validations, span] ←
      json.components? ["name", "owner", "data_type", "optional", "modifiers", "validations",
        "span"] | none
    return ⟨← Codec.required name, ← Codec.required owner, ← Codec.required dataType,
      ← Codec.required optional, ← Codec.required modifiers, ← Codec.required validations,
      ← Codec.required span⟩

end Property

instance : Codec EndSignature where
  encode signature := .object [("name", encode signature.name),
    ("owner", encode signature.owner), ("target", encode signature.target),
    ("multiplicity", encode signature.multiplicity), ("modifiers", encode signature.modifiers),
    ("span", encode signature.span)]
  decode json := do
    let [name, owner, target, multiplicity, modifiers, span] ←
      json.components? ["name", "owner", "target", "multiplicity", "modifiers", "span"] | none
    return ⟨← Codec.required name, ← Codec.required owner, ← Codec.required target,
      ← Codec.required multiplicity, ← Codec.required modifiers, ← Codec.required span⟩

instance : Codec Association where
  encode association := .object [("info", encode association.info),
    ("source", encode association.source), ("target", encode association.target),
    ("criteria", encode association.criteria), ("join", encode association.join)]
  decode json := do
    let [info, source, target, criteria, join] ←
      json.components? ["info", "source", "target", "criteria", "join"] | none
    return ⟨← Codec.required info, ← Codec.required source, ← Codec.required target,
      ← Codec.required criteria, ← Codec.required join⟩

namespace AssociationEnd

/-- Whether the end has a modifier. -/
def has (associationEnd : AssociationEnd) (modifier : Modifier) : Bool :=
  modifier ∈ associationEnd.modifiers

instance : Codec AssociationEnd where
  encode associationEnd := .object [("name", encode associationEnd.name),
    ("association", encode associationEnd.association), ("owner", encode associationEnd.owner),
    ("target", encode associationEnd.target),
    ("multiplicity", encode associationEnd.multiplicity),
    ("modifiers", encode associationEnd.modifiers), ("order_by", encode associationEnd.orderBy),
    ("opposite", encode associationEnd.opposite), ("span", encode associationEnd.span)]
  decode json := do
    let [name, association, owner, target, multiplicity, modifiers, orderBy, opposite, span] ←
      json.components? ["name", "association", "owner", "target", "multiplicity", "modifiers",
        "order_by", "opposite", "span"] | none
    return ⟨← Codec.required name, ← Codec.required association, ← Codec.required owner,
      ← Codec.required target, ← Codec.required multiplicity, ← Codec.required modifiers,
      ← Codec.optional orderBy, ← Codec.required opposite, ← Codec.required span⟩

end AssociationEnd

instance : Codec ForeignKey where
  encode foreignKey := .object [("end", encode foreignKey.associationEnd),
    ("foreign_key", encode foreignKey.foreignKey), ("key", encode foreignKey.key)]
  decode json := do
    let [associationEnd, foreignKey, key] ← json.components? ["end", "foreign_key", "key"] | none
    return ⟨← Codec.required associationEnd, ← Codec.required foreignKey, ← Codec.required key⟩

end DomainLang.Model
