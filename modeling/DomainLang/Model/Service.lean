import DomainLang.Model.Element

/-!
# Services of a model

A service group has urls, a url has parameters and services, and a service has
clauses.
-/

namespace DomainLang.Model

/-- A service group on a class. -/
structure ServiceGroup where
  info : Info
  klass : ClassId
  urls : List UrlId
  deriving DecidableEq, Repr, Inhabited

/-- A segment of the path of a url. -/
inductive UrlSegment where
  | constant (text : String)
  | parameter (id : ParameterId)
  deriving DecidableEq, Repr, Inhabited

/-- A url of a service group. -/
structure Url where
  group : ServiceGroupId
  path : List UrlSegment
  queryParameters : List ParameterId
  services : List ServiceId
  span : Span
  deriving DecidableEq, Repr, Inhabited

/-- A parameter of a url. -/
structure Parameter where
  name : String
  url : UrlId
  dataType : DataType
  multiplicity : Multiplicity
  deriving DecidableEq, Repr, Inhabited

structure Clause where
  kind : ClauseKind
  criteria : Criteria
  /-- Whether an inference added the clause. -/
  inferred : Bool
  deriving DecidableEq, Repr, Inhabited

/-- A service of a url. -/
structure Service where
  url : UrlId
  verb : Verb
  multiplicity : ServiceMultiplicity
  clauses : List Clause
  projection : Option ProjectionId
  orderBy : Option OrderBy
  span : Span
  deriving DecidableEq, Repr, Inhabited

instance : Codec ServiceGroup where
  encode group := .object [("info", encode group.info), ("klass", encode group.klass),
    ("urls", encode group.urls)]
  decode json := do
    let [info, klass, urls] ← json.components? ["info", "klass", "urls"] | none
    return ⟨← Codec.required info, ← Codec.required klass, ← Codec.required urls⟩

namespace UrlSegment

instance : Codec UrlSegment where
  encode
    | constant content => .tagged "Constant" (encode content)
    | parameter id => .tagged "Parameter" (encode id)
  decode json :=
    match json.alternative? with
    | some ("Constant", some content) => (decode content).map constant
    | some ("Parameter", some content) => (decode content).map parameter
    | _ => none

end UrlSegment

instance : Codec Url where
  encode url := .object [("group", encode url.group), ("path", encode url.path),
    ("query_parameters", encode url.queryParameters), ("services", encode url.services),
    ("span", encode url.span)]
  decode json := do
    let [group, path, queryParameters, services, span] ←
      json.components? ["group", "path", "query_parameters", "services", "span"] | none
    return ⟨← Codec.required group, ← Codec.required path, ← Codec.required queryParameters,
      ← Codec.required services, ← Codec.required span⟩

instance : Codec Parameter where
  encode parameter := .object [("name", encode parameter.name), ("url", encode parameter.url),
    ("data_type", encode parameter.dataType), ("multiplicity", encode parameter.multiplicity)]
  decode json := do
    let [name, url, dataType, multiplicity] ←
      json.components? ["name", "url", "data_type", "multiplicity"] | none
    return ⟨← Codec.required name, ← Codec.required url, ← Codec.required dataType,
      ← Codec.required multiplicity⟩

instance : Codec Clause where
  encode clause := .object [("kind", encode clause.kind), ("criteria", encode clause.criteria),
    ("inferred", encode clause.inferred)]
  decode json := do
    let [kind, criteria, inferred] ← json.components? ["kind", "criteria", "inferred"] | none
    return ⟨← Codec.required kind, ← Codec.required criteria, ← Codec.required inferred⟩

namespace Service

def clause? (service : Service) (kind : ClauseKind) : Option Clause :=
  service.clauses.find? (·.kind = kind)

instance : Codec Service where
  encode service := .object [("url", encode service.url), ("verb", encode service.verb),
    ("multiplicity", encode service.multiplicity), ("criteria", encode service.clauses),
    ("projection", encode service.projection), ("order_by", encode service.orderBy),
    ("span", encode service.span)]
  decode json := do
    let [url, verb, multiplicity, clauses, projection, orderBy, span] ←
      json.components? ["url", "verb", "multiplicity", "criteria", "projection", "order_by",
        "span"] | none
    return ⟨← Codec.required url, ← Codec.required verb, ← Codec.required multiplicity,
      ← Codec.required clauses, ← Codec.optional projection, ← Codec.optional orderBy,
      ← Codec.required span⟩

end Service
end DomainLang.Model
