import DomainLang.Resolved.Classifier
import DomainLang.Resolved.Criteria
import DomainLang.Syntax.Association

/-!
# Records of associations

An end names the class it leads to. It can be navigated from the class at the
other end, which owns it.
-/

namespace DomainLang.Resolved

open Syntax (Identifier)

/-- A property that refers to a key of another class. -/
structure ForeignKey where
  /-- The to-one end that is navigated through the foreign key. -/
  associationEnd : AssociationEndIndex
  foreignKey : PropertyIndex
  key : PropertyIndex
  deriving DecidableEq, Repr, Inhabited

structure Association where
  header : Header
  source : AssociationEndIndex
  target : AssociationEndIndex
  declaredRelationship : Syntax.Criteria
  relationship : Option Criteria := none
  join : Option JoinKind := none
  foreignKeys : List ForeignKey := []
  deriving DecidableEq, Repr, Inhabited

structure AssociationEnd where
  association : AssociationIndex
  isSource : Bool
  declaration : Syntax.AssociationEnd
  /-- The class the end leads to. -/
  target : Resolution ClassIndex := .notFound
  /-- The class the end can be navigated from. -/
  owner : Option ClassIndex := none
  orderBy : Option OrderBy := none
  opposite : AssociationEndIndex
  context : ContextKey
  deriving DecidableEq, Repr, Inhabited

namespace AssociationEnd

/-- The name where it was written. -/
def name (associationEnd : AssociationEnd) : Identifier :=
  associationEnd.declaration.name

/-- Whether a modifier is written on the end. -/
def has (associationEnd : AssociationEnd) (modifier : Modifier) : Bool :=
  hasModifier associationEnd.declaration.modifiers modifier

end AssociationEnd
end DomainLang.Resolved
