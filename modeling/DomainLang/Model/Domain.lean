import DomainLang.Collection.Repetition
import DomainLang.Graph.Traversal
import DomainLang.Model.Parts

/-!
# Domain models

A domain model is its parts together with an index from names to top-level
elements in declaration order. All kinds share one namespace; when a name is
used twice, the element with the lower ordinal has it.
-/

namespace DomainLang

open Model

structure DomainModel where
  parts : Parts
  /-- The names and their elements, in declaration order. -/
  names : List (String × TopLevelId)
  deriving Repr, Inhabited

namespace DomainModel

/-- Index the parts by name. -/
def ofParts (parts : Parts) : DomainModel where
  parts
  names :=
    let ordered := parts.topLevelByKind.mergeSort fun first second =>
      (parts.info first).ordinal ≤ (parts.info second).ordinal
    keepFirst (·.1) (ordered.map fun id => ((parts.info id).name, id))

/-- The element with a name. -/
def resolve (model : DomainModel) (name : String) : Option TopLevelId :=
  model.names.lookup name

/-- The elements in declaration order. -/
def topLevel (model : DomainModel) : List TopLevelId :=
  model.names.map (·.2)

def findEnumeration (model : DomainModel) (name : String) : Option EnumerationId :=
  (model.resolve name).bind fun
    | .enumeration id => some id
    | _ => none

def findInterface (model : DomainModel) (name : String) : Option InterfaceId :=
  (model.resolve name).bind fun
    | .interface id => some id
    | _ => none

def findClass (model : DomainModel) (name : String) : Option ClassId :=
  (model.resolve name).bind fun
    | .klass id => some id
    | _ => none

/-- The class or interface with a name. -/
def findClassifier (model : DomainModel) (name : String) : Option ClassifierId :=
  (model.resolve name).bind TopLevelId.classifier?

def findAssociation (model : DomainModel) (name : String) : Option AssociationId :=
  (model.resolve name).bind fun
    | .association id => some id
    | _ => none

def findProjection (model : DomainModel) (name : String) : Option ProjectionId :=
  (model.resolve name).bind fun
    | .projection id => some id
    | _ => none

def findServiceGroup (model : DomainModel) (name : String) : Option ServiceGroupId :=
  (model.resolve name).bind fun
    | .serviceGroup id => some id
    | _ => none

/-- The class that stands for users. -/
def userClass (model : DomainModel) : Option ClassId :=
  (model.parts.classes.findIdx? (·.isUser)).map Id.mk

def classifierName (model : DomainModel) : ClassifierId → String
  | .interface id => (model.parts.interface id).info.name
  | .klass id => (model.parts.klass id).info.name

/-- The superclasses of a class, nearest first, up to the first repetition. -/
def superclassChain (model : DomainModel) (klass : ClassId) : List ClassId :=
  let superclass := fun id => (model.parts.klass id).superclass
  Graph.follow superclass (model.parts.classes.length + 2) [klass] (superclass klass)

/-- Whether a class is another one or inherits from it. -/
def isSubclassOf (model : DomainModel) (klass ancestor : ClassId) : Bool :=
  klass = ancestor || ancestor ∈ model.superclassChain klass

/-- The declared and inherited properties of a classifier. -/
def properties (model : DomainModel) : ClassifierId → List PropertyId
  | .interface id => (model.parts.interface id).properties
  | .klass id => (model.parts.klass id).properties

def findProperty (model : DomainModel) (classifier : ClassifierId) (name : String) :
    Option PropertyId :=
  (model.properties classifier).find? fun id => (model.parts.property id).name = name

/-- The declared and inherited keys of a class. -/
def keyProperties (model : DomainModel) (klass : ClassId) : List PropertyId :=
  (model.properties (.klass klass)).filter fun id => (model.parts.property id).has .key

/-- The end at the other side of an association. -/
def opposite (model : DomainModel) (associationEnd : AssociationEndId) : AssociationEndId :=
  (model.parts.associationEnd associationEnd).opposite

/-- The foreign keys that a class holds. -/
def foreignKeys (model : DomainModel) (klass : ClassId) : List ForeignKey :=
  model.parts.foreignKeys.filter fun foreignKey =>
    (model.parts.associationEnd foreignKey.associationEnd).owner = klass

/-- The foreign keys that refer to a key. -/
def foreignKeysTo (model : DomainModel) (key : PropertyId) : List ForeignKey :=
  model.parts.foreignKeys.filter (·.key = key)

/-- The foreign keys that a property is. -/
def foreignKeysOf (model : DomainModel) (property : PropertyId) : List ForeignKey :=
  model.parts.foreignKeys.filter (·.foreignKey = property)

def toJson (model : DomainModel) : Json :=
  .object [("parts", encode model.parts),
    ("names", .object (model.names.map fun (name, id) => (name, encode id)))]

end DomainModel
end DomainLang
