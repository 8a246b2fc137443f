import DomainLang.Resolved.Classifier
import DomainLang.Resolved.Criteria
import DomainLang.Syntax.Service

/-!
# Records of service groups

A service group has urls, a url has parameters and services, and a service has
clauses. A clause remembers the unit it was written in, which differs from the
unit of its service when an inference added it.
-/

namespace DomainLang.Resolved

open Syntax (Identifier)

structure ServiceGroup where
  header : Header
  className : Identifier
  klass : Option (Resolution ClassIndex) := none
  urls : List UrlIndex := []
  deriving DecidableEq, Repr, Inhabited

/-- A segment of the path of a url. -/
inductive UrlSegment where
  | constant (text : String)
  | parameter (index : ParameterIndex)
  deriving DecidableEq, Repr, Inhabited

/-- A url of a service group. -/
structure Url where
  group : ServiceGroupIndex
  declaration : Syntax.Url
  path : List UrlSegment := []
  queryParameters : List ParameterIndex := []
  services : List ServiceIndex := []
  context : ContextKey
  deriving DecidableEq, Repr, Inhabited

/-- A parameter of a url. -/
structure Parameter where
  url : UrlIndex
  declaration : Syntax.Parameter
  /-- The enumeration, for a parameter whose type is one. -/
  enumeration : Option (Resolution EnumerationIndex) := none
  context : ContextKey
  deriving DecidableEq, Repr, Inhabited

structure Clause where
  declaration : Syntax.Clause
  criteria : Option Criteria := none
  /-- The unit the clause was written in. -/
  unit : UnitId
  /-- The inference that added the clause. -/
  inferred : Option Inference
  deriving DecidableEq, Repr, Inhabited

/-- A service of a url. -/
structure Service where
  url : UrlIndex
  declaration : Syntax.Service
  clauses : List Clause := []
  projection : Option (Resolution ProjectionIndex) := none
  orderBy : Option OrderBy := none
  context : ContextKey
  deriving DecidableEq, Repr, Inhabited

namespace UrlSegment

/-- The parameter, for a segment that is one. -/
def parameter? : UrlSegment → Option ParameterIndex
  | parameter index => some index
  | constant _ => none

end UrlSegment

namespace Url

/-- The parameters of the path, then those of the query. -/
def parameters (url : Url) : List ParameterIndex :=
  url.path.filterMap UrlSegment.parameter? ++ url.queryParameters

end Url

namespace Parameter

/-- The name where it was written. -/
def name (parameter : Parameter) : Identifier :=
  parameter.declaration.name

end Parameter

namespace Clause

/-- What the clause is for. -/
def kind (clause : Clause) : ClauseKind :=
  clause.declaration.kind

end Clause

namespace Service

/-- Whether the service has a clause of a kind. -/
def hasClause (service : Service) (kind : ClauseKind) : Bool :=
  service.clauses.any (·.kind = kind)

end Service
end DomainLang.Resolved
