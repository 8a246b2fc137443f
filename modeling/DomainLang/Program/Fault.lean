import DomainLang.Program.Index

/-!
# Faults

A fault means that an analysis broke one of its own rules. It says nothing about
the program that is analysed, and it ends the analysis.
-/

namespace DomainLang

/-- A broken rule of the analysis itself. -/
inductive Fault where
  | duplicateContext (context : ContextKey)
  | unknownContext (context : ContextKey)
  | reentrantWalk (kind : String)
  | unbalancedWalk (expected found : String)
  | expansionTooDeep (bound : Nat)
  | missingIndex (what : String)
  deriving DecidableEq, Repr, Inhabited

namespace Fault

/-- The wording. -/
def message : Fault → String
  | duplicateContext context => "parse context " ++ context.text ++ " registered twice"
  | unknownContext context =>
    "no compiler state registered for parse context " ++ context.text
  | reentrantWalk kind => s!"entered a {kind} walk while another {kind} walk is open"
  | unbalancedWalk expected found =>
    s!"exited a {expected} walk but the innermost open walk is {found}"
  | expansionTooDeep bound =>
    "macro expansion exceeded the maximum depth of " ++ toString bound
  | missingIndex what => "no model index allocated for " ++ what

end Fault
end DomainLang
