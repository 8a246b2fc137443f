import DomainLang.Program.Arena
import DomainLang.Resolved.Association
import DomainLang.Resolved.Projection
import DomainLang.Resolved.Service

/-!
# Programs

A program holds the records of all declarations, one arena per kind. Records
refer to each other by index only.
-/

namespace DomainLang

/-- The records of all declarations. -/
structure Program where
  enumerations : Arena .enumeration Resolved.Enumeration := {}
  interfaces : Arena .interface Resolved.Classifier := {}
  classes : Arena .klass Resolved.Class := {}
  properties : Arena .property Resolved.Property := {}
  endSignatures : Arena .endSignature Resolved.EndSignature := {}
  associations : Arena .association Resolved.Association := {}
  associationEnds : Arena .associationEnd Resolved.AssociationEnd := {}
  projections : Arena .projection Resolved.Projection := {}
  serviceGroups : Arena .serviceGroup Resolved.ServiceGroup := {}
  urls : Arena .url Resolved.Url := {}
  parameters : Arena .parameter Resolved.Parameter := {}
  services : Arena .service Resolved.Service := {}
  /-- The properties that criteria, orderings and projections refer to. -/
  referencedProperties : List PropertyIndex := []
  deriving Repr, Inhabited

namespace Program

/-- What a class or an interface has in common. -/
def classifier (program : Program) : ClassifierIndex → Resolved.Classifier
  | .interface index => program.interfaces.get index
  | .klass index => (program.classes.get index).toClassifier

/-- The header of a top-level declaration. -/
def header (program : Program) : TopLevelIndex → Resolved.Header
  | .enumeration index => (program.enumerations.get index).header
  | .interface index => (program.interfaces.get index).header
  | .klass index => (program.classes.get index).header
  | .association index => (program.associations.get index).header
  | .projection index => (program.projections.get index).header
  | .serviceGroup index => (program.serviceGroups.get index).header

/-- The top-level declarations, kind by kind. -/
def topLevelByKind (program : Program) : List TopLevelIndex :=
  program.enumerations.indices.map .enumeration ++ program.interfaces.indices.map .interface ++
    program.classes.indices.map .klass ++ program.associations.indices.map .association ++
    program.projections.indices.map .projection ++
    program.serviceGroups.indices.map .serviceGroup

/-- The top-level declarations in declaration order. -/
def topLevel (program : Program) : List TopLevelIndex :=
  program.topLevelByKind.mergeSort fun first second =>
    (program.header first).ordinal ≤ (program.header second).ordinal

/-- The classifiers in declaration order. -/
def classifiers (program : Program) : List ClassifierIndex :=
  program.topLevel.filterMap TopLevelIndex.classifier?

/-- Change what a class or an interface has in common. -/
def modifyClassifier (program : Program) (index : ClassifierIndex)
    (change : Resolved.Classifier → Resolved.Classifier) : Program :=
  match index with
  | .interface index => { program with interfaces := program.interfaces.modify index change }
  | .klass index =>
    { program with
      classes := program.classes.modify index fun klass =>
        { klass with toClassifier := change klass.toClassifier } }

/-- Remember that properties are referred to. -/
def refer (program : Program) (properties : List PropertyIndex) : Program :=
  { program with referencedProperties := program.referencedProperties ++ properties }

end Program
end DomainLang
