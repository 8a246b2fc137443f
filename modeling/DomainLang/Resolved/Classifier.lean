import DomainLang.Program.Unit
import DomainLang.Resolution

/-!
# Records of enumerations, interfaces, classes and their members

A record keeps the parts of the declaration that later analyses read and the
outcome of every lookup of a name in it. A lookup that has not been made yet is
`none`.
-/

namespace DomainLang.Resolved

open Syntax (Identifier ModifierMark)

/-- What every top-level declaration has. -/
structure Header where
  name : Identifier
  package : String
  /-- The position among all declarations, in declaration order. -/
  ordinal : Nat
  unit : UnitId
  sourceName : String
  context : ContextKey
  span : Span
  deriving DecidableEq, Repr, Inhabited

structure Enumeration where
  header : Header
  literals : List Syntax.EnumerationLiteral
  deriving DecidableEq, Repr, Inhabited

/-- What classes and interfaces share; an interface has nothing else. -/
structure Classifier where
  header : Header
  modifiers : List ModifierMark
  /-- The interfaces as written. -/
  declaredInterfaces : List Identifier
  /-- The outcome for each written interface. -/
  interfaces : List (Resolution InterfaceIndex) := []
  /-- The declared properties, inferred ones included. -/
  properties : List PropertyIndex := []
  endSignatures : List EndSignatureIndex := []
  deriving DecidableEq, Repr, Inhabited

structure Class extends Classifier where
  isUser : Bool
  abstraction : Option Syntax.AbstractClause
  /-- The superclass as written. -/
  declaredSuperclass : Option Identifier
  superclass : Option (Resolution ClassIndex) := none
  /-- The ends that the class itself can be navigated along. -/
  associationEnds : List AssociationEndIndex := []
  deriving DecidableEq, Repr, Inhabited

structure Property where
  owner : ClassifierIndex
  declaration : Syntax.Property
  /-- The enumeration, for a property whose type is one. -/
  enumeration : Option (Resolution EnumerationIndex) := none
  context : ContextKey
  /-- The inference that added the property. -/
  inferred : Option Inference
  deriving DecidableEq, Repr, Inhabited

structure EndSignature where
  owner : ClassifierIndex
  declaration : Syntax.EndSignature
  target : Option (Resolution ClassifierIndex) := none
  context : ContextKey
  deriving DecidableEq, Repr, Inhabited

/-- Whether a modifier is among those written. -/
def hasModifier (modifiers : List ModifierMark) (modifier : Modifier) : Bool :=
  modifiers.any (·.modifier = modifier)

namespace Classifier

/-- The name as written. -/
def name (classifier : Classifier) : String :=
  classifier.header.name.name

/-- The directly implemented interfaces that were found. -/
def resolvedInterfaces (classifier : Classifier) : List InterfaceIndex :=
  classifier.interfaces.filterMap Resolution.value?

end Classifier

namespace Class

/-- The superclass, when it was found. -/
def superclass? (klass : Class) : Option ClassIndex :=
  klass.superclass.bind Resolution.value?

/-- Whether instances are not stored. -/
def isTransient (klass : Class) : Bool :=
  hasModifier klass.modifiers .transient

/-- Whether only subclasses have instances. -/
def isAbstract (klass : Class) : Bool :=
  klass.abstraction.isSome

/-- The keyword that declares the class. -/
def kindName (klass : Class) : String :=
  if klass.isUser then "user" else "class"

end Class

namespace EndSignature

/-- The name where it was written. -/
def name (signature : EndSignature) : Identifier :=
  signature.declaration.name

end EndSignature

namespace Property

/-- The name where it was written. -/
def name (property : Property) : Identifier :=
  property.declaration.name

/-- Whether a modifier is written on the property. -/
def has (property : Property) (modifier : Modifier) : Bool :=
  hasModifier property.declaration.modifiers modifier

/-- Whether the type is one of the given primitives. -/
def hasType (property : Property) (types : List Primitive) : Bool :=
  match property.declaration.type.primitive? with
  | some type => type ∈ types
  | none => false

end Property
end DomainLang.Resolved
