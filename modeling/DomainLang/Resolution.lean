/-!
# Resolutions

The outcome of looking up a name. A failure is kept where it happened and
reported later, so that one unknown name does not stop the analysis.
-/

namespace DomainLang

/-- The outcome of a lookup. -/
inductive Resolution (α : Type) where
  | resolved (value : α)
  | ambiguous
  | notFound
  deriving DecidableEq, Repr, Inhabited

namespace Resolution

variable {α β : Type}

/-- Exactly one match resolves. -/
def ofMatches : List α → Resolution α
  | [] => notFound
  | [value] => resolved value
  | _ :: _ :: _ => ambiguous

/-- A value that is there resolves. -/
def ofOption : Option α → Resolution α
  | none => notFound
  | some value => resolved value

/-- Add one more candidate. -/
def merge (resolution : Resolution α) (candidate : α) : Resolution α :=
  match resolution with
  | notFound => resolved candidate
  | resolved _ | ambiguous => ambiguous

/-- Apply a function to the resolved value. -/
def map (f : α → β) : Resolution α → Resolution β
  | resolved value => resolved (f value)
  | ambiguous => ambiguous
  | notFound => notFound

/-- Continue with the resolved value; a failure is kept. -/
def andThen (resolution : Resolution α) (f : α → Resolution β) : Resolution β :=
  match resolution with
  | resolved value => f value
  | ambiguous => ambiguous
  | notFound => notFound

/-- Try something else when nothing was found. -/
def orElse (resolution : Resolution α) (other : Unit → Resolution α) : Resolution α :=
  match resolution with
  | notFound => other ()
  | resolution => resolution

/-- The resolved value. -/
def value? : Resolution α → Option α
  | resolved value => some value
  | ambiguous | notFound => none

/-- Whether there is a resolved value. -/
def isResolved : Resolution α → Bool
  | resolved _ => true
  | ambiguous | notFound => false

/-- Whether several candidates were found. -/
def isAmbiguous : Resolution α → Bool
  | ambiguous => true
  | resolved _ | notFound => false

/-- Whether no candidate was found. -/
def isNotFound : Resolution α → Bool
  | notFound => true
  | resolved _ | ambiguous => false

end Resolution
end DomainLang
