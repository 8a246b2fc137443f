import DomainLang.Diagnostic.Problem
import DomainLang.Program.Index

/-!
# Diagnostics

A diagnostic says what is wrong, how serious it is and where. Analyses find
`Finding`s, problems with a place; a finding becomes a diagnostic whose severity
follows from its kind.
-/

namespace DomainLang

/-- How serious a diagnostic is. -/
inductive Severity where
  | note | warning | error
  deriving DecidableEq, Repr, Inhabited

namespace Severity

def name : Severity → String
  | note => "note"
  | warning => "warning"
  | error => "error"

/-- The rank of the severity, highest for errors. -/
def rank : Severity → Nat
  | note => 0
  | warning => 1
  | error => 2

/-- The more serious of two. -/
def max (first second : Severity) : Severity :=
  if first.rank < second.rank then second else first

def ofKind (kind : ProblemKind) : Severity :=
  if kind.isWarning then warning else error

end Severity

/-- A remark at another place. -/
structure Label where
  span : Span
  message : String
  deriving DecidableEq, Repr, Inhabited

structure Diagnostic where
  kind : ProblemKind
  severity : Severity
  message : String
  span : Span
  /-- The unit of the place, when it is known. -/
  unit : Option UnitId := none
  labels : List Label := []
  notes : List String := []
  deriving DecidableEq, Repr, Inhabited

/-- A problem and its place. -/
structure Finding where
  problem : Problem
  unit : UnitId
  span : Span
  deriving DecidableEq, Repr

namespace Diagnostic

/-- A diagnostic whose severity follows from its kind. -/
def ofKind (kind : ProblemKind) (unit : UnitId) (span : Span) (message : String) : Diagnostic where
  kind
  severity := .ofKind kind
  message
  span
  unit := some unit

/-- Whether the diagnostic is an error. -/
def isError (diagnostic : Diagnostic) : Bool :=
  diagnostic.severity = .error

/-- The diagnostic on one line, without its place. -/
def summary (diagnostic : Diagnostic) : String :=
  diagnostic.severity.name ++ "[" ++ diagnostic.kind.code ++ "]: " ++ diagnostic.message

end Diagnostic

namespace Finding

/-- The diagnostic that reports a finding. -/
def diagnostic (finding : Finding) : Diagnostic :=
  .ofKind finding.problem.kind finding.unit finding.span finding.problem.message

end Finding
end DomainLang
