import DomainLang.Criteria.Path

/-!
# Resolving projections

Elements are looked up on the classifier that their parent leads to: properties
and association ends with those that are inherited, end signatures only on the
classifier itself and only when no end has the name.
-/

namespace DomainLang

open Resolved (Reference ProjectionElement)

namespace Program

/-- The end, or else the end signature, of a classifier with a name. -/
def findReference (program : Program) (name : String) (classifier : ClassifierIndex) :
    Resolution Reference :=
  ((program.findHop name classifier).map .associationEnd).orElse fun _ =>
    .ofMatches (((program.classifier classifier).endSignatures.filter fun signature =>
      (program.endSignatures.get signature).name.name = name).map .signature)

/-- The classifier that a reference leads to. -/
def referenceTarget (program : Program) : Reference → Resolution ClassifierIndex
  | .associationEnd index => program.endTarget index
  | .signature index => (program.endSignatures.get index).target.getD .notFound

mutual

/-- Look up the names in an element on a classifier. -/
def resolveElement (registry : Registry) (program : Program)
    (classifier : Resolution ClassifierIndex) : Syntax.ProjectionElement → ProjectionElement
  | .property _ name header =>
    .property name header (classifier.andThen fun owner => program.findProperty owner name.name)
  | .reference _ name children =>
    let reference := classifier.andThen (program.findReference name.name)
    .reference name reference
      (resolveElements registry program (reference.andThen program.referenceTarget) children)
  | .projection _ name projection =>
    .projection name (classifier.andThen (program.findReference name.name)) projection
      (registry.projections.find projection.name)

/-- Look up the names in elements on a classifier. -/
def resolveElements (registry : Registry) (program : Program)
    (classifier : Resolution ClassifierIndex) :
    List Syntax.ProjectionElement → List ProjectionElement
  | [] => []
  | element :: rest =>
    resolveElement registry program classifier element ::
      resolveElements registry program classifier rest

end

end Program

namespace Resolved.ProjectionElement

mutual

/-- The properties that an element and its children resolve to. -/
def properties : ProjectionElement → List PropertyIndex
  | property _ _ found => found.value?.toList
  | reference _ _ children => propertiesOfAll children
  | projection _ _ _ _ => []

/-- The properties that elements and their children resolve to. -/
def propertiesOfAll : List ProjectionElement → List PropertyIndex
  | [] => []
  | element :: rest => element.properties ++ propertiesOfAll rest

end

end Resolved.ProjectionElement

namespace Program

/-- Look up the names in projections. -/
def linkProjections (registry : Registry) (program : Program) : Program :=
  let projections := program.projections.map fun (projection : Resolved.Projection) =>
    let classifier := registry.findClassifier projection.classifierName.name
    { projection with
      classifier := some classifier
      children := program.resolveElements registry classifier projection.declaredChildren }
  { program with projections }.refer
    (projections.records.flatMap fun (projection : Resolved.Projection) =>
      ProjectionElement.propertiesOfAll projection.children)

end Program
end DomainLang
