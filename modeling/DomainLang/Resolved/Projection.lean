import DomainLang.Resolved.Classifier
import DomainLang.Syntax.Projection

/-!
# Records of projections

A projection selects properties of a classifier and, nested under references, of
the classifiers that its ends and end signatures lead to.
-/

namespace DomainLang.Resolved

open Syntax (Identifier)

/-- What a reference of a projection navigates along. -/
inductive Reference where
  | associationEnd (index : AssociationEndIndex)
  | signature (index : EndSignatureIndex)
  deriving DecidableEq, Repr, Inhabited

/-- An element of a projection with its names looked up. -/
inductive ProjectionElement where
  | property (name : Identifier) (header : String) (property : Resolution PropertyIndex)
  | reference (name : Identifier) (reference : Resolution Reference)
      (children : List ProjectionElement)
  | projection (name : Identifier) (reference : Resolution Reference) (projectionName : Identifier)
      (projection : Resolution ProjectionIndex)
  deriving Repr, Inhabited

structure Projection where
  header : Header
  classifierName : Identifier
  declaredChildren : List Syntax.ProjectionElement
  classifier : Option (Resolution ClassifierIndex) := none
  children : List ProjectionElement := []
  deriving Repr, Inhabited

namespace ProjectionElement

/-- The name where it was written. -/
def name : ProjectionElement → Identifier
  | property name _ _ => name
  | reference name _ _ => name
  | projection name _ _ _ => name

end ProjectionElement
end DomainLang.Resolved
