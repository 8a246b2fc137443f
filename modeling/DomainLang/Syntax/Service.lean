import DomainLang.Syntax.Classifier
import DomainLang.Syntax.Criteria

/-!
# Service groups as written

A service group is about one class. Each of its urls has a path, parameters in
the path and in the query, and the services that answer requests to it.
-/

namespace DomainLang.Syntax

/-- A parameter of a url. -/
structure Parameter extends Node where
  name : Identifier
  type : PropertyType
  multiplicity : Multiplicity
  deriving DecidableEq, Repr, Inhabited

/-- One segment of the path of a url. -/
inductive UrlSegment where
  | constant (name : Identifier)
  | parameter (parameter : Parameter)
  deriving DecidableEq, Repr, Inhabited

structure Clause extends Node where
  kind : ClauseKind
  keywordSpan : Span
  criteria : Criteria
  deriving DecidableEq, Repr, Inhabited

structure Service extends Node where
  verb : Verb
  multiplicity : ServiceMultiplicity
  clauses : List Clause
  projection : Option Identifier
  orderBy : Option OrderBy
  deriving DecidableEq, Repr, Inhabited

structure Url extends Node where
  path : List UrlSegment
  queryParameters : List Parameter
  services : List Service
  deriving DecidableEq, Repr, Inhabited

structure ServiceGroup extends Node where
  name : Identifier
  target : Identifier
  urls : List Url
  deriving DecidableEq, Repr, Inhabited

namespace Service

/-- Whether a clause of the given kind was written. -/
def hasClause (service : Service) (kind : ClauseKind) : Bool :=
  service.clauses.any (·.kind = kind)

end Service

namespace Url

/-- Path parameters followed by query parameters. -/
def parameters (url : Url) : List Parameter :=
  url.path.filterMap (fun
    | .parameter parameter => some parameter
    | .constant _ => none) ++ url.queryParameters

/-- The path, with `label parameter` between braces for every parameter. -/
def pathText (url : Url) (label : Parameter → String) : String :=
  if url.path.isEmpty then "/"
  else String.join (url.path.map fun
    | .constant name => "/" ++ name.name
    | .parameter parameter => "/\x7b" ++ label parameter ++ "\x7d")

/-- The path without the names of its parameters; urls with the same normalized
path answer the same requests. -/
def normalizedPath (url : Url) : String :=
  url.pathText fun _ => ""

/-- The path as it is shown to users. -/
def displayPath (url : Url) : String :=
  url.pathText (·.name.name)

end Url

instance : Codec Parameter where
  encode parameter := .object (parameter.toNode.fields ++
    [("name", encode parameter.name), ("parameter_type", encode parameter.type),
      ("multiplicity", encode parameter.multiplicity)])
  decode json := do
    let [id, span, name, type, multiplicity] ←
      json.components? ["id", "span", "name", "parameter_type", "multiplicity"] | none
    return ⟨← Node.ofComponents? id span, ← Codec.required name, ← Codec.required type,
      ← Codec.required multiplicity⟩

namespace UrlSegment

instance : Codec UrlSegment where
  encode
    | constant name => .tagged "Constant" (encode name)
    | parameter declaration => .tagged "Parameter" (encode declaration)
  decode json :=
    match json.alternative? with
    | some ("Constant", some content) => (decode content).map constant
    | some ("Parameter", some content) => (decode content).map parameter
    | _ => none

end UrlSegment

instance : Codec Clause where
  encode clause := .object (clause.toNode.fields ++
    [("kind", encode clause.kind), ("keyword_span", encode clause.keywordSpan),
      ("criteria", encode clause.criteria)])
  decode json := do
    let [id, span, kind, keywordSpan, criteria] ←
      json.components? ["id", "span", "kind", "keyword_span", "criteria"] | none
    return ⟨← Node.ofComponents? id span, ← Codec.required kind, ← Codec.required keywordSpan,
      ← Codec.required criteria⟩

instance : Codec Service where
  encode service := .object (service.toNode.fields ++
    [("verb", encode service.verb), ("multiplicity", encode service.multiplicity),
      ("criteria", encode service.clauses), ("projection", encode service.projection),
      ("order_by", encode service.orderBy)])
  decode json := do
    let [id, span, verb, multiplicity, clauses, projection, orderBy] ←
      json.components? ["id", "span", "verb", "multiplicity", "criteria", "projection",
        "order_by"] | none
    return ⟨← Node.ofComponents? id span, ← Codec.required verb, ← Codec.required multiplicity,
      ← Codec.required clauses, ← Codec.optional projection, ← Codec.optional orderBy⟩

instance : Codec Url where
  encode url := .object (url.toNode.fields ++
    [("path", encode url.path), ("query_parameters", encode url.queryParameters),
      ("services", encode url.services)])
  decode json := do
    let [id, span, path, queryParameters, services] ←
      json.components? ["id", "span", "path", "query_parameters", "services"] | none
    return ⟨← Node.ofComponents? id span, ← Codec.required path, ← Codec.required queryParameters,
      ← Codec.required services⟩

instance : Codec ServiceGroup where
  encode group := .object (group.toNode.fields ++
    [("name", encode group.name), ("class_ref", encode group.target),
      ("urls", encode group.urls)])
  decode json := do
    let [id, span, name, target, urls] ←
      json.components? ["id", "span", "name", "class_ref", "urls"] | none
    return ⟨← Node.ofComponents? id span, ← Codec.required name, ← Codec.required target,
      ← Codec.required urls⟩

end DomainLang.Syntax
