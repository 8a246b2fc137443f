import DomainLang.Syntax.Node
import DomainLang.Vocabulary

/-!
# Enumerations, interfaces and classes as written

Members are properties and end signatures. Names of types, superclasses and
interfaces are not resolved here.
-/

namespace DomainLang.Syntax

structure EnumerationLiteral extends Node where
  name : Identifier
  prettyName : Option String
  deriving DecidableEq, Repr, Inhabited

structure Enumeration extends Node where
  name : Identifier
  literals : List EnumerationLiteral
  deriving DecidableEq, Repr, Inhabited

/-- A modifier where it was written. -/
structure ModifierMark extends Node where
  modifier : Modifier
  deriving DecidableEq, Repr, Inhabited

/-- The type of a property or parameter. -/
inductive PropertyType where
  | primitive (type : Primitive)
  | enumeration (name : Identifier)
  deriving DecidableEq, Repr, Inhabited

/-- A bound on the values of a property. -/
structure Validation extends Node where
  kind : ValidationKind
  value : Int64
  deriving DecidableEq, Repr, Inhabited

/-- A data-type property. -/
structure Property extends Node where
  name : Identifier
  type : PropertyType
  typeSpan : Span
  optional : Bool
  modifiers : List ModifierMark
  validations : List Validation
  deriving DecidableEq, Repr, Inhabited

/-- A promise that implementors have an association end. -/
structure EndSignature extends Node where
  name : Identifier
  target : Identifier
  multiplicity : Multiplicity
  modifiers : List ModifierMark
  deriving DecidableEq, Repr, Inhabited

inductive Member where
  | property (property : Property)
  | endSignature (signature : EndSignature)
  deriving DecidableEq, Repr, Inhabited

structure Interface extends Node where
  name : Identifier
  interfaces : List Identifier
  modifiers : List ModifierMark
  members : List Member
  deriving DecidableEq, Repr, Inhabited

/-- The clause that makes a class abstract. -/
structure AbstractClause where
  span : Span
  inheritance : Option InheritanceType
  deriving DecidableEq, Repr, Inhabited

/-- A class, possibly the one that stands for users. -/
structure Class extends Node where
  name : Identifier
  isUser : Bool
  abstraction : Option AbstractClause
  superclass : Option Identifier
  interfaces : List Identifier
  modifiers : List ModifierMark
  members : List Member
  deriving DecidableEq, Repr, Inhabited

instance : Codec EnumerationLiteral where
  encode literal := .object (literal.toNode.fields ++
    [("name", encode literal.name), ("pretty_name", encode literal.prettyName)])
  decode json := do
    let [id, span, name, prettyName] ←
      json.components? ["id", "span", "name", "pretty_name"] | none
    return ⟨← Node.ofComponents? id span, ← Codec.required name, ← Codec.optional prettyName⟩

instance : Codec Enumeration where
  encode enumeration := .object (enumeration.toNode.fields ++
    [("name", encode enumeration.name), ("literals", encode enumeration.literals)])
  decode json := do
    let [id, span, name, literals] ← json.components? ["id", "span", "name", "literals"] | none
    return ⟨← Node.ofComponents? id span, ← Codec.required name, ← Codec.required literals⟩

instance : Codec ModifierMark where
  encode mark := .object (mark.toNode.fields ++ [("modifier", encode mark.modifier)])
  decode json := do
    let [id, span, modifier] ← json.components? ["id", "span", "modifier"] | none
    return ⟨← Node.ofComponents? id span, ← Codec.required modifier⟩

namespace PropertyType

/-- The name of the type as it is written. -/
def name : PropertyType → String
  | primitive type => keyword type
  | enumeration identifier => identifier.name

/-- The primitive, for a type that is one. -/
def primitive? : PropertyType → Option Primitive
  | primitive type => some type
  | enumeration _ => none

instance : Codec PropertyType where
  encode
    | primitive type => .tagged "Primitive" (encode type)
    | enumeration identifier => .tagged "Enumeration" (encode identifier)
  decode json :=
    match json.alternative? with
    | some ("Primitive", some content) => (decode content).map primitive
    | some ("Enumeration", some content) => (decode content).map enumeration
    | _ => none

end PropertyType

instance : Codec Validation where
  encode validation := .object (validation.toNode.fields ++
    [("kind", encode validation.kind), ("value", encode validation.value)])
  decode json := do
    let [id, span, kind, value] ← json.components? ["id", "span", "kind", "value"] | none
    return ⟨← Node.ofComponents? id span, ← Codec.required kind, ← Codec.required value⟩

instance : Codec Property where
  encode property := .object (property.toNode.fields ++
    [("name", encode property.name), ("property_type", encode property.type),
      ("type_span", encode property.typeSpan), ("optional", encode property.optional),
      ("modifiers", encode property.modifiers), ("validations", encode property.validations)])
  decode json := do
    let [id, span, name, type, typeSpan, optional, modifiers, validations] ←
      json.components? ["id", "span", "name", "property_type", "type_span", "optional",
        "modifiers", "validations"] | none
    return ⟨← Node.ofComponents? id span, ← Codec.required name, ← Codec.required type,
      ← Codec.required typeSpan, ← Codec.required optional, ← Codec.required modifiers,
      ← Codec.required validations⟩

instance : Codec EndSignature where
  encode signature := .object (signature.toNode.fields ++
    [("name", encode signature.name), ("class_ref", encode signature.target),
      ("multiplicity", encode signature.multiplicity), ("modifiers", encode signature.modifiers)])
  decode json := do
    let [id, span, name, target, multiplicity, modifiers] ←
      json.components? ["id", "span", "name", "class_ref", "multiplicity", "modifiers"] | none
    return ⟨← Node.ofComponents? id span, ← Codec.required name, ← Codec.required target,
      ← Codec.required multiplicity, ← Codec.required modifiers⟩

namespace Member

def name : Member → Identifier
  | property declaration => declaration.name
  | endSignature signature => signature.name

instance : Codec Member where
  encode
    | property declaration => .tagged "Property" (encode declaration)
    | endSignature signature => .tagged "EndSignature" (encode signature)
  decode json :=
    match json.alternative? with
    | some ("Property", some content) => (decode content).map property
    | some ("EndSignature", some content) => (decode content).map endSignature
    | _ => none

end Member

instance : Codec Interface where
  encode interface := .object (interface.toNode.fields ++
    [("name", encode interface.name), ("implements", encode interface.interfaces),
      ("modifiers", encode interface.modifiers), ("members", encode interface.members)])
  decode json := do
    let [id, span, name, interfaces, modifiers, members] ←
      json.components? ["id", "span", "name", "implements", "modifiers", "members"] | none
    return ⟨← Node.ofComponents? id span, ← Codec.required name, ← Codec.required interfaces,
      ← Codec.required modifiers, ← Codec.required members⟩

instance : Codec AbstractClause where
  encode clause :=
    .object [("span", encode clause.span), ("inheritance", encode clause.inheritance)]
  decode json := do
    let [span, inheritance] ← json.components? ["span", "inheritance"] | none
    return ⟨← Codec.required span, ← Codec.optional inheritance⟩

instance : Codec Class where
  encode declaration := .object (declaration.toNode.fields ++
    [("name", encode declaration.name), ("is_user", encode declaration.isUser),
      ("abstract_decl", encode declaration.abstraction),
      ("extends", encode declaration.superclass), ("implements", encode declaration.interfaces),
      ("modifiers", encode declaration.modifiers), ("members", encode declaration.members)])
  decode json := do
    let [id, span, name, isUser, abstraction, superclass, interfaces, modifiers, members] ←
      json.components? ["id", "span", "name", "is_user", "abstract_decl", "extends", "implements",
        "modifiers", "members"] | none
    return ⟨← Node.ofComponents? id span, ← Codec.required name, ← Codec.required isUser,
      ← Codec.optional abstraction, ← Codec.optional superclass, ← Codec.required interfaces,
      ← Codec.required modifiers, ← Codec.required members⟩

end DomainLang.Syntax
