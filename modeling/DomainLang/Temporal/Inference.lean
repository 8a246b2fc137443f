import DomainLang.Declaration.Members
import DomainLang.Hierarchy.Lineage
import DomainLang.Syntax.Build
import DomainLang.Temporal.Family

/-!
# Inferring temporal properties

A classifier that is temporal in a family has a range property and two endpoint
properties of it. Those that are neither declared nor inherited are added.
Parents are expanded before the classifiers that inherit from them, so that
nothing is added that a parent provides.
-/

namespace DomainLang

namespace Program

/-- The superclass and the interfaces that a classifier names and that were found. -/
def parents (program : Program) : ClassifierIndex → List ClassifierIndex
  | .interface index => (program.parentInterfaces index).map .interface
  | .klass index =>
    (program.superclass? index).toList.map .klass ++
      (program.classes.get index).resolvedInterfaces.map .interface

/-- Every classifier, after the classifiers it inherits from. -/
def inheritanceOrder (program : Program) : List ClassifierIndex :=
  Graph.postOrder program.parents (program.classifiers.length + 1) program.classifiers

end Program

namespace Temporal

/-- The families that a modifier of a classifier asks for. -/
def familiesOf : Modifier → List Modifier
  | .validTemporal => [.valid]
  | .systemTemporal => [.system]
  | .bitemporal => [.valid, .system]
  | _ => []

/-- The families that a classifier asks for, each once. -/
def requestedFamilies (classifier : Resolved.Classifier) : List Modifier :=
  keepFirst id (classifier.modifiers.flatMap fun mark => familiesOf mark.modifier)

def propertyFor (family : Modifier) : TemporalPart → Syntax.Property
  | .range => .bare (keyword family) (.primitive .temporalRange) true [family, .privateAccess] []
  | .fromInstant =>
    .bare (keyword family ++ "From") (.primitive .temporalInstant) true [family, .fromInstant] []
  | .toInstant =>
    .bare (keyword family ++ "To") (.primitive .temporalInstant) true [family, .toInstant] []

/-- Whether a classifier has a property for a part of a family. -/
def isPresent (program : Program) (classifier : ClassifierIndex) (family : Modifier)
    (part : TemporalPart) : Bool :=
  (program.allProperties classifier).any fun index =>
    let property := program.properties.get index
    property.temporalFamily? = some family && property.temporalPart? = some part

/-- The properties that a classifier asks for and does not have. -/
def missingMembers (program : Program) (classifier : ClassifierIndex) : List Syntax.Member :=
  (requestedFamilies (program.classifier classifier)).flatMap fun family =>
    (TemporalPart.all.filter fun part => !isPresent program classifier family part).map fun part =>
      .property (propertyFor family part)

end Temporal

namespace Phase

/-- Add the missing temporal properties of one classifier. -/
def inferTemporalPropertiesOf (classifier : ClassifierIndex) : Phase Unit := do
  let program := (← get).program
  let members := Temporal.missingMembers program classifier
  match members with
  | [] => pure ()
  | _ :: _ =>
    let header := (program.classifier classifier).header
    expandDeclaration .temporalProperties header.context header.span (.members classifier members)

/-- Add the missing temporal properties of every classifier, parents first. -/
def inferTemporalProperties : Phase Unit := do
  (← get).program.inheritanceOrder.forM inferTemporalPropertiesOf

end Phase
end DomainLang
