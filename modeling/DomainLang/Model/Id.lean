import DomainLang.Json.Codec
import DomainLang.Program.Index

/-!
# Ids of the records of a model

An id is the position of a record among the records of its kind. The written
form of ids and ordinals is an unsigned number of 32 bits.
-/

namespace DomainLang.Model

/-- The position of a record of a model. -/
structure Id (kind : RecordKind) where
  value : Nat
  deriving DecidableEq, Repr, Inhabited

abbrev EnumerationId := Id .enumeration
abbrev InterfaceId := Id .interface
abbrev ClassId := Id .klass
abbrev PropertyId := Id .property
abbrev EndSignatureId := Id .endSignature
abbrev AssociationId := Id .association
abbrev AssociationEndId := Id .associationEnd
abbrev ProjectionId := Id .projection
abbrev ServiceGroupId := Id .serviceGroup
abbrev UrlId := Id .url
abbrev ParameterId := Id .parameter
abbrev ServiceId := Id .service

/-- A class or an interface. -/
inductive ClassifierId where
  | interface (id : InterfaceId)
  | klass (id : ClassId)
  deriving DecidableEq, Repr, Inhabited

/-- Any top-level element. -/
inductive TopLevelId where
  | enumeration (id : EnumerationId)
  | interface (id : InterfaceId)
  | klass (id : ClassId)
  | association (id : AssociationId)
  | projection (id : ProjectionId)
  | serviceGroup (id : ServiceGroupId)
  deriving DecidableEq, Repr, Inhabited

/-- How a kind of record is called in ids. -/
def kindLabel : RecordKind → String
  | .enumeration => "enumeration"
  | .interface => "interface"
  | .klass => "class"
  | .property => "property"
  | .endSignature => "signature"
  | .association => "association"
  | .associationEnd => "end"
  | .projection => "projection"
  | .serviceGroup => "service group"
  | .url => "url"
  | .parameter => "parameter"
  | .service => "service"

/-- Read a number of 32 bits. -/
def decodeNumber (json : Json) : Option Nat :=
  Codec.naturalBelow 0x100000000 json

namespace Id

variable {kind : RecordKind}

/-- The id as it is shown to users. -/
def text (id : Id kind) : String :=
  kindLabel kind ++ "#" ++ toString id.value

instance : Codec (Id kind) where
  encode id := .integer id.value
  decode json := (decodeNumber json).map Id.mk

end Id

namespace ClassifierId

/-- The class, when it is one. -/
def class? : ClassifierId → Option ClassId
  | klass id => some id
  | interface _ => none

/-- The classifier as a top-level element. -/
def toTopLevel : ClassifierId → TopLevelId
  | interface id => .interface id
  | klass id => .klass id

instance : Codec ClassifierId where
  encode
    | interface id => .tagged "Interface" (encode id)
    | klass id => .tagged "Klass" (encode id)
  decode json :=
    match json.alternative? with
    | some ("Interface", some content) => (decode content).map interface
    | some ("Klass", some content) => (decode content).map klass
    | _ => none

end ClassifierId

namespace TopLevelId

/-- The classifier, when the element is one. -/
def classifier? : TopLevelId → Option ClassifierId
  | interface id => some (.interface id)
  | klass id => some (.klass id)
  | enumeration _ | association _ | projection _ | serviceGroup _ => none

instance : Codec TopLevelId where
  encode
    | enumeration id => .tagged "Enumeration" (encode id)
    | interface id => .tagged "Interface" (encode id)
    | klass id => .tagged "Klass" (encode id)
    | association id => .tagged "Association" (encode id)
    | projection id => .tagged "Projection" (encode id)
    | serviceGroup id => .tagged "ServiceGroup" (encode id)
  decode json :=
    match json.alternative? with
    | some ("Enumeration", some content) => (decode content).map enumeration
    | some ("Interface", some content) => (decode content).map interface
    | some ("Klass", some content) => (decode content).map klass
    | some ("Association", some content) => (decode content).map association
    | some ("Projection", some content) => (decode content).map projection
    | some ("ServiceGroup", some content) => (decode content).map serviceGroup
    | _ => none

end TopLevelId
end DomainLang.Model
