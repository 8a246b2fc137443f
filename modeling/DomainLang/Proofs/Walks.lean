import DomainLang.Proofs.Phase
import Mathlib.Data.List.Induction
import Mathlib.Data.List.Nodup

/-!
# Walks as logs

Whatever is entered and exited, and in whichever order, a walk answers as the plain list of the
calls that succeeded would: a scope is open from the call that entered it to the next call on its
kind, and the frames are the open scopes in the order of their entering. That an accessor may take
the first frame that it meets rests on this: no two open scopes are of one kind. A call looks
before it changes anything, so that one that fails leaves the walk as it was.
-/

namespace DomainLang.Walk

/-- A call on a walk. -/
inductive Call where
  | enter (frame : Frame)
  | exit (frame : Frame)
  deriving DecidableEq, Repr

namespace Call

/-- The scope that the call names. -/
def frame : Call → Frame
  | enter frame => frame
  | exit frame => frame

/-- The outcome of the call and the walk after it. -/
def answer (walk : Walk) : Call → Except Fault Unit × Walk
  | enter frame => walk.enter frame
  | exit frame => walk.exit frame

end Call

/-- A walk and the calls on it that succeeded, in order. -/
structure Journey where
  walk : Walk := {}
  log : List Call := []
  deriving DecidableEq, Repr

/-- One call, which is logged if it succeeds. -/
def Journey.call (journey : Journey) (call : Call) : Journey :=
  let (result, walk) := call.answer journey.walk
  { walk, log := if result.isOk then journey.log ++ [call] else journey.log }

/-- A sequence of calls on a new walk. -/
def run (calls : List Call) : Journey :=
  calls.foldl Journey.call {}

/-- The scope was entered, and since then no scope of its kind was entered or exited. -/
def IsOpen (log : List Call) (frame : Frame) : Prop :=
  ∃ earlier later, log = earlier ++ .enter frame :: later ∧
    ∀ call ∈ later, call.frame.kind ≠ frame.kind

/-- One more call opens the scope that it enters, and ends the one of its kind. -/
theorem isOpen_concat {log : List Call} {call : Call} {frame : Frame} :
    IsOpen (log ++ [call]) frame ↔
      call = .enter frame ∨ IsOpen log frame ∧ call.frame.kind ≠ frame.kind := by
  constructor
  · rintro ⟨earlier, later, split, untouched⟩
    rcases List.eq_nil_or_concat later with rfl | ⟨front, last, rfl⟩
    · exact .inl (List.singleton_inj.mp (List.append_inj' split rfl).2)
    · rw [List.concat_eq_append] at split untouched
      rw [← List.cons_append, ← List.append_assoc] at split
      obtain ⟨rfl, same⟩ := List.append_inj' split rfl
      obtain rfl := List.singleton_inj.mp same
      exact .inr ⟨⟨earlier, front, rfl, fun other member =>
        untouched other (List.mem_append_left _ member)⟩, untouched call (by simp)⟩
  · rintro (rfl | ⟨⟨earlier, later, rfl, untouched⟩, apart⟩)
    · exact ⟨log, [], rfl, by simp⟩
    · refine ⟨earlier, later ++ [call], by simp, fun other member => ?_⟩
      rcases List.mem_append.mp member with before | last
      · exact untouched other before
      · exact List.mem_singleton.mp last ▸ apart

/-- The frames are the scopes that the log leaves open, in the order of their entering, and no
two of them are of one kind. -/
structure Mirrors (walk : Walk) (log : List Call) : Prop where
  kinds : (walk.frames.map Frame.kind).Nodup
  mem_iff : ∀ frame, frame ∈ walk.frames ↔ IsOpen log frame
  order : (walk.frames.reverse.map Call.enter).Sublist log

section Steps

variable {walk after : Walk} {log : List Call} {frame : Frame}

/-- A scope cannot be opened exactly when one of its kind is open. -/
theorem enter_eq_error_iff :
    (∃ fault, (walk.enter frame).1 = .error fault) ↔
      ∃ other ∈ walk.frames, other.kind = frame.kind := by
  rw [enter]
  split
  · next busy => simpa using busy
  · next free => simpa using free

/-- A scope cannot be closed exactly when the innermost one is not of its kind. -/
theorem exit_eq_error_iff :
    (∃ fault, (walk.exit frame).1 = .error fault) ↔
      ∀ innermost ∈ walk.frames.head?, innermost.kind ≠ frame.kind := by
  rw [exit]
  split
  · next closed => simp [closed]
  · next innermost rest opened => split <;> simp_all

/-- The scope that is closed is the innermost one. -/
theorem exit_eq_ok (exited : walk.exit frame = (.ok (), after)) :
    ∃ innermost, walk.frames = innermost :: after.frames ∧ innermost.kind = frame.kind := by
  rw [exit] at exited
  split at exited
  · cases exited
  · next innermost rest opened =>
    split at exited
    · next same =>
      obtain rfl := (Prod.mk.inj exited).2
      exact ⟨innermost, opened, same⟩
    · cases exited

/-- A scope that cannot be closed leaves the walk as it was. -/
theorem exit_eq_error {fault : Fault} (refused : walk.exit frame = (.error fault, after)) :
    after = walk := by
  rw [exit] at refused
  split at refused
  · exact (Prod.mk.inj refused).2.symm
  · split at refused
    · cases refused
    · exact (Prod.mk.inj refused).2.symm

/-- Entering a scope keeps the walk and its log in step. -/
theorem Mirrors.enter (mirrors : walk.Mirrors log)
    (entered : walk.enter frame = (.ok (), after)) :
    after.Mirrors (log ++ [.enter frame]) := by
  have free : ∀ other ∈ walk.frames, other.kind ≠ frame.kind := by
    intro other member same
    obtain ⟨fault, failed⟩ := enter_eq_error_iff.mpr ⟨other, member, same⟩
    rw [entered] at failed
    cases failed
  obtain rfl := Phase.enter_eq_ok entered
  constructor
  · refine List.nodup_cons.mpr ⟨?_, mirrors.kinds⟩
    simpa using free
  · intro other
    rw [isOpen_concat, ← mirrors.mem_iff, List.mem_cons, Call.enter.injEq, eq_comm]
    exact or_congr_right ⟨fun member => ⟨member, (free other member).symm⟩, And.left⟩
  · simpa using mirrors.order.append_right [.enter frame]

/-- Exiting a scope keeps the walk and its log in step. -/
theorem Mirrors.exit (mirrors : walk.Mirrors log) (exited : walk.exit frame = (.ok (), after)) :
    after.Mirrors (log ++ [.exit frame]) := by
  obtain ⟨innermost, opened, same⟩ := exit_eq_ok exited
  obtain ⟨kinds, mem_iff, order⟩ := mirrors
  rw [opened] at kinds mem_iff order
  obtain ⟨alone, kinds⟩ := List.nodup_cons.mp kinds
  constructor
  · exact kinds
  · -- of the open scopes only the innermost is of the kind that is exited
    intro other
    rw [isOpen_concat, ← mem_iff, Call.frame, ← same, List.mem_cons]
    constructor
    · intro member
      exact .inr ⟨.inr member, fun here => alone (here ▸ List.mem_map_of_mem member)⟩
    · rintro (entered | ⟨rfl | member, apart⟩)
      · cases entered
      · exact absurd rfl apart
      · exact member
  · rw [List.reverse_cons, List.map_append] at order
    exact (List.sublist_append_left ..).trans (order.trans (List.sublist_append_left ..))

/-- A call that fails leaves the walk as it was. -/
theorem answer_eq_error {call : Call} {fault : Fault}
    (refused : call.answer walk = (.error fault, after)) : after = walk := by
  cases call with
  | enter frame => exact Phase.enter_eq_error refused
  | exit frame => exact exit_eq_error refused

/-- A call that succeeds keeps the walk and its log in step. -/
theorem Mirrors.answer {call : Call} (mirrors : walk.Mirrors log)
    (answered : call.answer walk = (.ok (), after)) : after.Mirrors (log ++ [call]) := by
  cases call with
  | enter frame => exact mirrors.enter answered
  | exit frame => exact mirrors.exit answered

end Steps

/-- A call that fails is not logged either, so the journey is as before. -/
theorem Journey.call_of_error {journey : Journey} {call : Call} {fault : Fault}
    (refused : (call.answer journey.walk).1 = .error fault) : journey.call call = journey := by
  rcases answered : call.answer journey.walk with ⟨result, after⟩
  rw [answered] at refused
  obtain rfl : result = .error fault := refused
  rw [Journey.call, answered, answer_eq_error answered]
  rfl

/-- A run of one more call is the run without it and then the call. -/
theorem run_concat (calls : List Call) (call : Call) :
    run (calls ++ [call]) = (run calls).call call := by
  rw [run, List.foldl_append]
  rfl

/-- After any calls the walk and its log are in step. -/
theorem mirrors_run (calls : List Call) : (run calls).walk.Mirrors (run calls).log := by
  induction calls using List.reverseRecOn with
  | nil => exact ⟨.nil, fun frame => by simp [run, IsOpen], .slnil⟩
  | append_singleton calls call ih =>
    rw [run_concat]
    rcases answered : call.answer (run calls).walk with ⟨fault | ⟨⟩, after⟩
    · rw [Journey.call_of_error (congrArg Prod.fst answered)]
      exact ih
    · rw [Journey.call, answered]
      exact ih.answer answered

/-- Where no two scopes are of one kind, what is found first is all that there is. -/
theorem findSome?_frames_eq_some_iff {α : Type} {frames : List Frame}
    (kinds : (frames.map Frame.kind).Nodup) {pick : Frame → Option α} {make : α → Frame}
    (picks : ∀ frame value, pick frame = some value ↔ frame = make value)
    (oneKind : ∀ value other, (make value).kind = (make other).kind) (value : α) :
    frames.findSome? pick = some value ↔ make value ∈ frames := by
  constructor
  · intro found
    obtain ⟨frame, member, picked⟩ := List.exists_of_findSome?_eq_some found
    exact (picks frame value).mp picked ▸ member
  · intro member
    obtain ⟨other, found⟩ : ∃ other, frames.findSome? pick = some other := by
      rw [← Option.isSome_iff_exists, List.findSome?_isSome_iff]
      exact ⟨make value, member, by rw [(picks _ value).mpr rfl]; rfl⟩
    obtain ⟨frame, listed, picked⟩ := List.exists_of_findSome?_eq_some found
    obtain rfl := (picks frame other).mp picked
    have same : make other = make value :=
      List.inj_on_of_nodup_map kinds listed member (oneKind other value)
    rw [found, ← (picks _ other).mpr rfl, same]
    exact (picks _ value).mpr rfl

/-- What a walk says is what its log says. -/
structure Reflects (walk : Walk) (log : List Call) : Prop extends walk.Mirrors log where
  enter : ∀ frame, (∃ fault, (walk.enter frame).1 = .error fault) ↔
    ∃ other, IsOpen log other ∧ other.kind = frame.kind
  exit : ∀ frame, (∃ fault, (walk.exit frame).1 = .error fault) ↔
    ∀ innermost ∈ walk.frames.head?, innermost.kind ≠ frame.kind
  unit : ∀ id, walk.unit? = some id ↔ IsOpen log (.unit id)
  classifier : ∀ index, walk.classifier? = some index ↔ IsOpen log (.classifier index)
  association : ∀ index, walk.association? = some index ↔ IsOpen log (.association index)
  serviceGroup : ∀ index, walk.serviceGroup? = some index ↔ IsOpen log (.serviceGroup index)
  service : ∀ index, walk.service? = some index ↔ IsOpen log (.service index)

theorem Mirrors.reflects {walk : Walk} {log : List Call} (mirrors : walk.Mirrors log) :
    walk.Reflects log := by
  have accessor {α : Type} {pick : Frame → Option α} {make : α → Frame}
      (picks : ∀ frame value, pick frame = some value ↔ frame = make value)
      (oneKind : ∀ value other, (make value).kind = (make other).kind) (value : α) :
      walk.frames.findSome? pick = some value ↔ IsOpen log (make value) :=
    (findSome?_frames_eq_some_iff mirrors.kinds picks oneKind value).trans (mirrors.mem_iff _)
  constructor
  case toMirrors => exact mirrors
  case enter =>
    intro frame
    simp only [enter_eq_error_iff, mirrors.mem_iff]
  case exit => exact fun frame => exit_eq_error_iff
  all_goals exact accessor (fun frame _ => by cases frame <;> simp) fun _ _ => rfl

/-- After any calls, failing ones included, the walk answers as the log of those that succeeded,
and a call that fails changes nothing. -/
theorem run_reflects_calls (calls : List Call) :
    (run calls).walk.Reflects (run calls).log ∧
      ∀ (call : Call) (fault : Fault), (call.answer (run calls).walk).1 = .error fault →
        run (calls ++ [call]) = run calls := by
  refine ⟨(mirrors_run calls).reflects, fun call fault failed => ?_⟩
  rw [run_concat, Journey.call_of_error failed]

end DomainLang.Walk
