import DomainLang.Diagnostic.Basic
import DomainLang.Projection.Links

/-!
# Rules for projections

Every element exists on the classifier it is looked up on, and a projection that
is used for a reference fits what the reference leads to. Nothing is reported
below a classifier that was not resolved.
-/

namespace DomainLang.Rules

open Resolved (ProjectionElement Reference)
open Syntax (Identifier)

/-- A reference that is missing or ambiguous. -/
def reference (unit : UnitId) (owner : String) (name : Identifier) :
    Resolution Reference → List Finding
  | .resolved _ => []
  | .notFound => [⟨.unknownProjectionEnd name.name owner, unit, name.span⟩]
  | .ambiguous => [⟨.ambiguousProjectionEnd name.name owner, unit, name.span⟩]

/-- A projection that is missing or does not fit what the reference leads to. -/
def nestedProjection (program : Program) (unit : UnitId) (name : Identifier)
    (target : Resolution ClassifierIndex) (projectionName : Identifier) :
    Resolution ProjectionIndex → List Finding
  | .notFound => [⟨.unknownType "projection" projectionName.name, unit, projectionName.span⟩]
  | .ambiguous => []
  | .resolved index =>
    match target, (program.projections.get index).classifier with
    | .resolved target, some (.resolved projected) =>
      if program.conforms target projected then []
      else
        [⟨.projectionMismatch projectionName.name (program.classifier projected).name name.name
          (program.classifier target).name, unit, projectionName.span⟩]
    | _, _ => []

mutual

/-- The rules for an element on a classifier named `owner`. -/
def projectionElement (program : Program) (unit : UnitId) (owner : String) :
    ProjectionElement → List Finding
  | .property name _ property =>
    if property.isNotFound then
      [⟨.unknownProjectionProperty name.name owner, unit, name.span⟩]
    else []
  | .reference name found children =>
    reference unit owner name found ++
      match found.andThen program.referenceTarget with
      | .resolved target =>
        projectionElements program unit (program.classifier target).name children
      | .ambiguous | .notFound => []
  | .projection name found projectionName projection =>
    reference unit owner name found ++
      nestedProjection program unit name (found.andThen program.referenceTarget) projectionName
        projection

/-- The rules for elements on a classifier named `owner`. -/
def projectionElements (program : Program) (unit : UnitId) (owner : String) :
    List ProjectionElement → List Finding
  | [] => []
  | element :: rest =>
    projectionElement program unit owner element ++ projectionElements program unit owner rest

end

def projectionRules (program : Program) (projection : Resolved.Projection) : List Finding :=
  if projection.classifier.any Resolution.isResolved then
    projectionElements program projection.header.unit projection.classifierName.name
      projection.children
  else []

def projections (program : Program) : List Finding :=
  program.projections.records.flatMap (projectionRules program)

end DomainLang.Rules
