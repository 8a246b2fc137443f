import DomainLang.Resolved.Classifier

/-!
# Temporal families

A temporal property belongs to the family of valid time or of system time and is
the range of the family or one of its two endpoints.
-/

namespace DomainLang

/-- The role of a property within its temporal family. -/
inductive TemporalPart where
  | range | fromInstant | toInstant
  deriving DecidableEq, Repr, Inhabited

namespace TemporalPart

def name : TemporalPart → String
  | range => "range"
  | fromInstant => "from"
  | toInstant => "to"

/-- Every part, in the order in which they are inferred. -/
def all : List TemporalPart :=
  [range, fromInstant, toInstant]

end TemporalPart

namespace Resolved.Property

/-- The family, valid time before system time. -/
def temporalFamily? (property : Property) : Option Modifier :=
  [Modifier.valid, Modifier.system].find? property.has

/-- The part, for a property that belongs to a family. -/
def temporalPart? (property : Property) : Option TemporalPart :=
  property.temporalFamily?.map fun _ =>
    if property.has .fromInstant then .fromInstant
    else if property.has .toInstant then .toInstant
    else .range

/-- Whether the property is kept by the system and need not be referred to. -/
def isBookkeeping (property : Property) : Bool :=
  property.temporalFamily?.isSome || property.has .version ||
    property.declaration.modifiers.any (·.modifier.isAudit)

end Resolved.Property
end DomainLang
