import DomainLang.Collection.Repetition
import DomainLang.Graph.Traversal
import DomainLang.Program.Basic

/-!
# Superclasses, interfaces and inherited members

A class inherits along its chain of superclasses, nearest first; a classifier
also inherits from every interface it reaches, breadth first. Nothing assumes
that there are no cycles: a chain stops before it would repeat a class, and a
classifier is never among its own ancestors.

Of properties with one name the nearest is inherited, so a lookup is ambiguous
only among the properties that the classifier itself declares.
-/

namespace DomainLang.Program

open Resolved (Classifier)

/-- The superclass of a class, when it was found. -/
def superclass? (program : Program) (klass : ClassIndex) : Option ClassIndex :=
  (program.classes.get klass).superclass?

/-- The superclasses of a class, nearest first, up to the first repetition. -/
def superclassChain (program : Program) (klass : ClassIndex) : List ClassIndex :=
  Graph.follow program.superclass? (program.classes.size + 1) [klass] (program.superclass? klass)

/-- Whether a class is another one or inherits from it. -/
def isSubclassOf (program : Program) (klass ancestor : ClassIndex) : Bool :=
  klass = ancestor || ancestor ∈ program.superclassChain klass

/-- The classifier followed by its superclasses. -/
def lineage (program : Program) : ClassifierIndex → List ClassifierIndex
  | .interface index => [.interface index]
  | .klass index => .klass index :: (program.superclassChain index).map .klass

/-- The interfaces that an interface names and that were found. -/
def parentInterfaces (program : Program) (interface : InterfaceIndex) : List InterfaceIndex :=
  (program.interfaces.get interface).resolvedInterfaces

/-- The number of interfaces named by interfaces, found or not. -/
def interfaceEdges (program : Program) : Nat :=
  (program.interfaces.records.flatMap (·.interfaces)).length

/-- The interfaces reached from a queue of interfaces, breadth first. -/
def reachableInterfaces (program : Program) (seen queue : List InterfaceIndex) :
    List InterfaceIndex :=
  Graph.breadthFirst program.parentInterfaces (queue.length + program.interfaceEdges) seen queue

/-- Every interface that a classifier implements, through superclasses and other
interfaces too, without the classifier itself. -/
def allInterfaces (program : Program) (classifier : ClassifierIndex) : List InterfaceIndex :=
  let queue := (program.lineage classifier).flatMap fun ancestor =>
    (program.classifier ancestor).resolvedInterfaces
  match classifier with
  | .interface index => program.reachableInterfaces [index] queue
  | .klass _ => program.reachableInterfaces [] queue

/-- Whether a classifier implements an interface. -/
def implements (program : Program) (classifier : ClassifierIndex) (interface : InterfaceIndex) :
    Bool :=
  interface ∈ program.allInterfaces classifier

/-- Whether instances of the first classifier are instances of the second. -/
def conforms (program : Program) (sub super : ClassifierIndex) : Bool :=
  sub = super ||
    match sub, super with
    | .klass klass, .klass ancestor => program.isSubclassOf klass ancestor
    | _, .interface interface => program.implements sub interface
    | .interface _, .klass _ => false

/-- Whether an interface reaches itself. -/
def interfaceCycle (program : Program) (interface : InterfaceIndex) : Bool :=
  interface ∈ program.reachableInterfaces [] (program.parentInterfaces interface)

/-- Whether a class is reached from its own superclass. -/
def superclassCycle (program : Program) (klass superclass : ClassIndex) : Bool :=
  klass ∈ Graph.follow program.superclass? (program.classes.size + 1) [] (some superclass)

def propertyName (program : Program) (property : PropertyIndex) : String :=
  (program.properties.get property).name.name

/-- The classifiers that properties come from, nearest first. -/
def propertySources (program : Program) (classifier : ClassifierIndex) : List ClassifierIndex :=
  program.lineage classifier ++ (program.allInterfaces classifier).map .interface

/-- Declared and inherited properties; of properties with one name the nearest. -/
def allProperties (program : Program) (classifier : ClassifierIndex) : List PropertyIndex :=
  keepFirst program.propertyName
    ((program.propertySources classifier).flatMap fun source =>
      (program.classifier source).properties)

/-- The property of a classifier with a name, declared or inherited. -/
def findProperty (program : Program) (classifier : ClassifierIndex) (name : String) :
    Resolution PropertyIndex :=
  let named := fun property => program.propertyName property = name
  (Resolution.ofMatches ((program.classifier classifier).properties.filter named)).orElse fun _ =>
    .ofOption ((program.allProperties classifier).find? named)

def endName (program : Program) (associationEnd : AssociationEndIndex) : String :=
  (program.associationEnds.get associationEnd).name.name

/-- The ends that a class can be navigated along, inherited ones included; an
inherited end is hidden by a nearer one with its name. -/
def allAssociationEnds (program : Program) (klass : ClassIndex) : List AssociationEndIndex :=
  let own := (program.classes.get klass).associationEnds
  let inherited := (program.superclassChain klass).flatMap fun ancestor =>
    (program.classes.get ancestor).associationEnds
  own ++ (keepFirst program.endName inherited).filter fun associationEnd =>
    program.endName associationEnd ∉ own.map program.endName

def findAssociationEnd (program : Program) (klass : ClassIndex) (name : String) :
    Resolution AssociationEndIndex :=
  .ofMatches ((program.allAssociationEnds klass).filter fun associationEnd =>
    program.endName associationEnd = name)

end DomainLang.Program
