import DomainLang.Syntax.Node

/-!
# Indices of records

While a program is analysed every declaration has a record in the arena of its
kind. An `Index` is a position in one such arena; its type says which.
-/

namespace DomainLang

inductive RecordKind where
  | enumeration | interface | klass | property | endSignature | association | associationEnd
  | projection | serviceGroup | url | parameter | service
  deriving DecidableEq, Repr

/-- The position of a record in the arena of its kind. -/
structure Index (kind : RecordKind) where
  value : Nat
  deriving DecidableEq, Repr, Inhabited

abbrev EnumerationIndex := Index .enumeration
abbrev InterfaceIndex := Index .interface
abbrev ClassIndex := Index .klass
abbrev PropertyIndex := Index .property
abbrev EndSignatureIndex := Index .endSignature
abbrev AssociationIndex := Index .association
abbrev AssociationEndIndex := Index .associationEnd
abbrev ProjectionIndex := Index .projection
abbrev ServiceGroupIndex := Index .serviceGroup
abbrev UrlIndex := Index .url
abbrev ParameterIndex := Index .parameter
abbrev ServiceIndex := Index .service

/-- A class or an interface. -/
inductive ClassifierIndex where
  | interface (index : InterfaceIndex)
  | klass (index : ClassIndex)
  deriving DecidableEq, Repr, Inhabited

/-- Any top-level declaration. -/
inductive TopLevelIndex where
  | enumeration (index : EnumerationIndex)
  | interface (index : InterfaceIndex)
  | klass (index : ClassIndex)
  | association (index : AssociationIndex)
  | projection (index : ProjectionIndex)
  | serviceGroup (index : ServiceGroupIndex)
  deriving DecidableEq, Repr, Inhabited

/-- Any record that stands for a node of a tree. -/
inductive RecordIndex where
  | topLevel (index : TopLevelIndex)
  | property (index : PropertyIndex)
  | endSignature (index : EndSignatureIndex)
  | associationEnd (index : AssociationEndIndex)
  | url (index : UrlIndex)
  | parameter (index : ParameterIndex)
  | service (index : ServiceIndex)
  deriving DecidableEq, Repr, Inhabited

namespace ClassifierIndex

/-- The classifier as a top-level declaration. -/
def toTopLevel : ClassifierIndex → TopLevelIndex
  | interface index => .interface index
  | klass index => .klass index

end ClassifierIndex

namespace TopLevelIndex

/-- The classifier, when the declaration is one. -/
def classifier? : TopLevelIndex → Option ClassifierIndex
  | interface index => some (.interface index)
  | klass index => some (.klass index)
  | _ => none

/-- What kind of declaration it is, in words. -/
def kindName : TopLevelIndex → String
  | enumeration _ => "enumeration"
  | interface _ => "interface"
  | klass _ => "class"
  | association _ => "association"
  | projection _ => "projection"
  | serviceGroup _ => "service group"

end TopLevelIndex

/-- The identity of a compilation unit. -/
structure UnitId where
  value : Nat
  deriving DecidableEq, Repr, Inhabited

/-- A node of the tree of a unit. -/
structure ContextKey where
  unit : UnitId
  node : NodeId
  deriving DecidableEq, Repr, Inhabited

namespace UnitId

/-- The unit as it is shown to users. -/
def text (unit : UnitId) : String :=
  "unit#" ++ toString unit.value

end UnitId

namespace ContextKey

/-- The node as it is shown to users. -/
def text (context : ContextKey) : String :=
  context.unit.text ++ ":node#" ++ toString context.node.value.toNat

end ContextKey
end DomainLang
