import DomainLang.Diagnostic.Basic

/-!
# Reports

A report collects diagnostics in the order in which they are found. Sorting puts
them in source order and keeps the order of those at the same place.
-/

namespace DomainLang

/-- The diagnostics of a compilation. -/
structure Report where
  diagnostics : List Diagnostic := []
  deriving DecidableEq, Repr, Inhabited

namespace Diagnostic

/-- Unit, file, line and offset; a diagnostic without a unit comes first. -/
def sortKey (diagnostic : Diagnostic) : List Nat :=
  [diagnostic.unit.elim 0 (·.value + 1), diagnostic.span.fileId.toNat,
    diagnostic.span.startLine.toNat, diagnostic.span.start.toNat]

end Diagnostic

namespace Report

def add (report : Report) (diagnostic : Diagnostic) : Report :=
  ⟨report.diagnostics ++ [diagnostic]⟩

/-- Add findings in order. -/
def addFindings (report : Report) (findings : List Finding) : Report :=
  ⟨report.diagnostics ++ findings.map Finding.diagnostic⟩

/-- The number of diagnostics with a severity. -/
def count (report : Report) (severity : Severity) : Nat :=
  report.diagnostics.countP (·.severity = severity)

/-- Whether there is an error. -/
def hasErrors (report : Report) : Bool :=
  report.diagnostics.any Diagnostic.isError

/-- The diagnostics in source order. -/
def sorted (report : Report) : List Diagnostic :=
  report.diagnostics.mergeSort fun first second => !second.sortKey.lex first.sortKey

/-- The highest severity. -/
def worst? (report : Report) : Option Severity :=
  match report.diagnostics with
  | [] => none
  | first :: rest => some (rest.foldl (fun worst next => worst.max next.severity) first.severity)

end Report
end DomainLang
