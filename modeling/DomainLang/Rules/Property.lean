import DomainLang.Program.Workspace
import DomainLang.Temporal.Family

/-!
# Rules for properties

Temporal, audit, version and user id properties have a fixed type and go with
certain modifiers only. A private property is referred to somewhere.
-/

namespace DomainLang.Rules

open Resolved (Property)

namespace PropertyRule

def atName (property : Property) (problem : Problem) : Finding :=
  ⟨problem, property.context.unit, property.name.span⟩

def atType (property : Property) (problem : Problem) : Finding :=
  ⟨problem, property.context.unit, property.declaration.typeSpan⟩

/-- A finding under a condition. -/
def findingIf (condition : Bool) (finding : Finding) : List Finding :=
  if condition then [finding] else []

/-- The name that a property with modifier `createdBy` should have. -/
def createdByName : String := "createdById"

/-- The name that a property with modifier `lastUpdatedBy` should have. -/
def lastUpdatedByName : String := "lastUpdatedById"

end PropertyRule

open PropertyRule

def temporal (property : Property) : List Finding :=
  let name := property.name.name
  let type := property.declaration.type.name
  let isEndpoint := property.has .fromInstant || property.has .toInstant
  findingIf (property.has .fromInstant && property.has .toInstant)
      (atName property (.fromAndTo name)) ++
    findingIf (isEndpoint && property.temporalFamily?.isNone)
      (atName property (.endpointWithoutFamily name)) ++
    findingIf (isEndpoint && !property.hasType [.temporalInstant])
      (atType property (.endpointType name type)) ++
    findingIf (!isEndpoint && property.temporalPart? = some .range &&
        !property.hasType [.temporalRange])
      (atType property (.rangeType name type))

def audit (property : Property) : List Finding :=
  let audits := (property.declaration.modifiers.map (·.modifier)).filter Modifier.isAudit
  match audits with
  | [] => []
  | first :: _ =>
    let name := property.name.name
    let byUser := property.has .createdBy || property.has .lastUpdatedBy
    let expected := if byUser then Primitive.string else .instant
    findingIf (property.has .key) (atName property (.auditKey name)) ++
      findingIf (!property.has .privateAccess) (atName property (.auditNotPrivate name)) ++
      findingIf (!property.hasType [expected])
        (atType property (.auditType first name expected property.declaration.type.name)) ++
      findingIf (byUser && !property.has .userId)
        (atName property (.auditWithoutUserId first name)) ++
      findingIf (property.has .createdBy && name ≠ createdByName)
        (atName property (.createdByName name createdByName)) ++
      findingIf (property.has .lastUpdatedBy && name ≠ lastUpdatedByName)
        (atName property (.lastUpdatedByName name lastUpdatedByName))

def versionAndUserId (property : Property) : List Finding :=
  let name := property.name.name
  let type := property.declaration.type.name
  let isExplained := property.has .key || property.has .createdBy || property.has .lastUpdatedBy
  findingIf (property.has .version && !property.hasType [.integer, .long])
      (atType property (.versionType name type)) ++
    findingIf (property.has .userId && !property.hasType [.string])
      (atType property (.userIdType name type)) ++
    findingIf (property.has .userId && !isExplained)
      (atName property (.unexplainedUserId name))

/-- A private property that nothing refers to. -/
def unreferenced (workspace : Workspace) (index : PropertyIndex) : List Finding :=
  let property := workspace.program.properties.get index
  findingIf
    (workspace.options.reportUnreferencedPrivate && property.has .privateAccess &&
      !property.isBookkeeping && index ∉ workspace.program.referencedProperties)
    (atName property (.unreferencedPrivate property.name.name))

def propertyRules (workspace : Workspace) (index : PropertyIndex) : List Finding :=
  let property := workspace.program.properties.get index
  temporal property ++ audit property ++ versionAndUserId property ++
    unreferenced workspace index

def properties (workspace : Workspace) : List Finding :=
  workspace.program.properties.indices.flatMap (propertyRules workspace)

end DomainLang.Rules
