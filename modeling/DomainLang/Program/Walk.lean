import DomainLang.Program.Fault

/-!
# Walks

While declarations are visited from the top down, a stack of frames says which
unit, classifier, association, service group and service are open. At most one
frame of each kind is open, and frames close in the reverse order of opening.
Opening and closing give the outcome and the walk that is left behind.
-/

namespace DomainLang

/-- An open scope. -/
inductive Frame where
  | unit (id : UnitId)
  | classifier (index : ClassifierIndex)
  | association (index : AssociationIndex)
  | serviceGroup (index : ServiceGroupIndex)
  | service (index : ServiceIndex)
  deriving DecidableEq, Repr, Inhabited

/-- The open scopes, innermost first. -/
structure Walk where
  frames : List Frame := []
  deriving DecidableEq, Repr, Inhabited

namespace Frame

/-- What kind of scope it is, in words. -/
def kind : Frame → String
  | unit _ => "unit"
  | classifier _ => "classifier"
  | association _ => "association"
  | serviceGroup _ => "service group"
  | service _ => "service"

end Frame

namespace Walk

/-- Open a scope, unless one of its kind is open. -/
def enter (walk : Walk) (frame : Frame) : Except Fault Unit × Walk :=
  if walk.frames.any (·.kind = frame.kind) then (.error (.reentrantWalk frame.kind), walk)
  else (.ok (), ⟨frame :: walk.frames⟩)

/-- Close the innermost scope, which must be of the given kind. -/
def exit (walk : Walk) (frame : Frame) : Except Fault Unit × Walk :=
  match walk.frames with
  | [] => (.error (.unbalancedWalk frame.kind "nothing"), walk)
  | innermost :: rest =>
    if innermost.kind = frame.kind then (.ok (), ⟨rest⟩)
    else (.error (.unbalancedWalk frame.kind innermost.kind), walk)

/-- Whether no scope is open. -/
def isEmpty (walk : Walk) : Bool :=
  walk.frames.isEmpty

/-- The open unit. -/
def unit? (walk : Walk) : Option UnitId :=
  walk.frames.findSome? fun
    | .unit id => some id
    | _ => none

/-- The open classifier. -/
def classifier? (walk : Walk) : Option ClassifierIndex :=
  walk.frames.findSome? fun
    | .classifier index => some index
    | _ => none

/-- The open association. -/
def association? (walk : Walk) : Option AssociationIndex :=
  walk.frames.findSome? fun
    | .association index => some index
    | _ => none

/-- The open service group. -/
def serviceGroup? (walk : Walk) : Option ServiceGroupIndex :=
  walk.frames.findSome? fun
    | .serviceGroup index => some index
    | _ => none

/-- The open service. -/
def service? (walk : Walk) : Option ServiceIndex :=
  walk.frames.findSome? fun
    | .service index => some index
    | _ => none

end Walk
end DomainLang
