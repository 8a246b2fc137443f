import DomainLang.Model.Projection
import DomainLang.Model.Service

/-!
# The parts of a model

One list of records per kind; an id is a position in the list of its kind.
Reading past the end of a list gives a blank record.
-/

namespace DomainLang.Model

/-- All records of a model. -/
structure Parts where
  enumerations : List Enumeration := []
  interfaces : List Interface := []
  classes : List Class := []
  properties : List Property := []
  endSignatures : List EndSignature := []
  associations : List Association := []
  associationEnds : List AssociationEnd := []
  foreignKeys : List ForeignKey := []
  projections : List Projection := []
  serviceGroups : List ServiceGroup := []
  urls : List Url := []
  parameters : List Parameter := []
  services : List Service := []
  deriving Repr, Inhabited

namespace Parts

def enumeration (parts : Parts) (id : EnumerationId) : Enumeration :=
  parts.enumerations.getD id.value default

def interface (parts : Parts) (id : InterfaceId) : Interface :=
  parts.interfaces.getD id.value default

def klass (parts : Parts) (id : ClassId) : Class :=
  parts.classes.getD id.value default

def property (parts : Parts) (id : PropertyId) : Property :=
  parts.properties.getD id.value default

def endSignature (parts : Parts) (id : EndSignatureId) : EndSignature :=
  parts.endSignatures.getD id.value default

def association (parts : Parts) (id : AssociationId) : Association :=
  parts.associations.getD id.value default

def associationEnd (parts : Parts) (id : AssociationEndId) : AssociationEnd :=
  parts.associationEnds.getD id.value default

def projection (parts : Parts) (id : ProjectionId) : Projection :=
  parts.projections.getD id.value default

def serviceGroup (parts : Parts) (id : ServiceGroupId) : ServiceGroup :=
  parts.serviceGroups.getD id.value default

def url (parts : Parts) (id : UrlId) : Url :=
  parts.urls.getD id.value default

def parameter (parts : Parts) (id : ParameterId) : Parameter :=
  parts.parameters.getD id.value default

def service (parts : Parts) (id : ServiceId) : Service :=
  parts.services.getD id.value default

/-- What a top-level element has in common with the others. -/
def info (parts : Parts) : TopLevelId → Info
  | .enumeration id => (parts.enumeration id).info
  | .interface id => (parts.interface id).info
  | .klass id => (parts.klass id).info
  | .association id => (parts.association id).info
  | .projection id => (parts.projection id).info
  | .serviceGroup id => (parts.serviceGroup id).info

def ids {kind : RecordKind} {α : Type} (records : List α) : List (Id kind) :=
  (List.range records.length).map Id.mk

/-- The top-level elements, kind by kind. -/
def topLevelByKind (parts : Parts) : List TopLevelId :=
  (ids parts.enumerations).map .enumeration ++ (ids parts.interfaces).map .interface ++
    (ids parts.classes).map .klass ++ (ids parts.associations).map .association ++
    (ids parts.projections).map .projection ++ (ids parts.serviceGroups).map .serviceGroup

instance : Codec Parts where
  encode parts := .object [("enumerations", encode parts.enumerations),
    ("interfaces", encode parts.interfaces), ("klasses", encode parts.classes),
    ("properties", encode parts.properties), ("end_signatures", encode parts.endSignatures),
    ("associations", encode parts.associations),
    ("association_ends", encode parts.associationEnds),
    ("foreign_keys", encode parts.foreignKeys), ("projections", encode parts.projections),
    ("service_groups", encode parts.serviceGroups), ("urls", encode parts.urls),
    ("parameters", encode parts.parameters), ("services", encode parts.services)]
  decode json := do
    let [enumerations, interfaces, classes, properties, endSignatures, associations,
        associationEnds, foreignKeys, projections, serviceGroups, urls, parameters, services] ←
      json.components? ["enumerations", "interfaces", "klasses", "properties", "end_signatures",
        "associations", "association_ends", "foreign_keys", "projections", "service_groups",
        "urls", "parameters", "services"] | none
    return ⟨← Codec.required enumerations, ← Codec.required interfaces,
      ← Codec.required classes, ← Codec.required properties, ← Codec.required endSignatures,
      ← Codec.required associations, ← Codec.required associationEnds,
      ← Codec.required foreignKeys, ← Codec.required projections,
      ← Codec.required serviceGroups, ← Codec.required urls, ← Codec.required parameters,
      ← Codec.required services⟩

end Parts
end DomainLang.Model
