import DomainLang.Criteria.Path
import DomainLang.Proofs.Resolution
import DomainLang.Rules.Criteria
import Mathlib.Data.List.Basic

/-!
# Failures along member paths

A lookup that continues another one fails wherever the first one did, and in the same way. Along
a path the lookups are continued step by step, so a failure is carried to the end, and a path
whose property was found was found as a whole. Of a path that failed the rules report the first
failure and nothing after it, unless a name is ambiguous.
-/

namespace DomainLang

namespace Resolution

variable {α β γ : Type} {first : Resolution α} {later : Resolution β}

/-- Where the first lookup failed, the later one failed in the same way. -/
def FailsLike (later : Resolution β) (first : Resolution α) : Prop :=
  (first = .ambiguous → later = .ambiguous) ∧ (first = .notFound → later = .notFound)

theorem failsLike_andThen (first : Resolution α) (next : α → Resolution β) :
    (first.andThen next).FailsLike first := by
  constructor <;> rintro rfl <;> rfl

theorem FailsLike.trans {last : Resolution γ} (second : last.FailsLike later)
    (start : later.FailsLike first) : last.FailsLike first :=
  ⟨fun failed => second.1 (start.1 failed), fun failed => second.2 (start.2 failed)⟩

theorem FailsLike.isResolved (fails : later.FailsLike first) (found : later.isResolved) :
    first.isResolved := by
  cases first with
  | resolved _ => rfl
  | ambiguous => rwa [fails.1 rfl] at found
  | notFound => rwa [fails.2 rfl] at found

end Resolution

open Resolved

namespace Program

variable (program : Program)

/-- A later outcome carries the failure of a step and of what the step leads to. -/
def CarriesFailure {α : Type} (hop : Hop) (later : Resolution α) : Prop :=
  later.FailsLike hop.target ∧ later.FailsLike (hop.target.andThen program.endTarget)

/-- A failure at the start of a path is carried through all steps. -/
theorem failsLike_followHops (names : List Syntax.Identifier)
    (current : Resolution ClassifierIndex) :
    (∀ hop ∈ (program.followHops current names).1, hop.target.FailsLike current) ∧
      (program.followHops current names).2.FailsLike current := by
  induction names generalizing current with
  | nil => exact ⟨by simp [followHops], by simp [followHops, Resolution.FailsLike]⟩
  | cons name rest ih =>
    have here := Resolution.failsLike_andThen current (program.findHop name.name)
    have onward := (Resolution.failsLike_andThen _ program.endTarget).trans here
    obtain ⟨steps, last⟩ := ih ((current.andThen (program.findHop name.name)).andThen
      program.endTarget)
    exact ⟨List.forall_mem_cons.mpr ⟨here, fun hop member => (steps hop member).trans onward⟩,
      last.trans onward⟩

/-- A failure at a step is carried through all later steps. -/
theorem carriesFailure_followHops (names : List Syntax.Identifier)
    (current : Resolution ClassifierIndex) :
    (program.followHops current names).1.Pairwise
        (fun earlier later => program.CarriesFailure earlier later.target) ∧
      ∀ hop ∈ (program.followHops current names).1,
        program.CarriesFailure hop (program.followHops current names).2 := by
  induction names generalizing current with
  | nil => exact ⟨.nil, by simp [followHops]⟩
  | cons name rest ih =>
    let found := current.andThen (program.findHop name.name)
    have onward := Resolution.failsLike_andThen found program.endTarget
    obtain ⟨steps, last⟩ := program.failsLike_followHops rest (found.andThen program.endTarget)
    obtain ⟨pairwise, each⟩ := ih (found.andThen program.endTarget)
    exact ⟨.cons (fun hop member => ⟨(steps hop member).trans onward, steps hop member⟩) pairwise,
      List.forall_mem_cons.mpr ⟨⟨last.trans onward, last⟩, each⟩⟩

/-- A failure of the start, of a step or of what a step leads to is carried to the end, and the
property is found only together with everything before it. -/
structure FailsThroughout (path : MemberPath) : Prop where
  start : (∀ hop ∈ path.hops, hop.target.FailsLike path.classifier) ∧
    path.property.FailsLike path.classifier
  steps : path.hops.Pairwise fun earlier later => program.CarriesFailure earlier later.target
  property : ∀ hop ∈ path.hops, program.CarriesFailure hop path.property
  found : path.property.isResolved →
    path.classifier.isResolved ∧ ∀ hop ∈ path.hops, hop.target.isResolved
  isResolved : path.isResolved ↔ path.property.isResolved

theorem failsThroughout_resolvePath (origin : Origin)
    (classifier : Resolution ClassifierIndex) (hops : List Syntax.Identifier)
    (member : Syntax.Identifier) (unit : UnitId) (span : Span) :
    program.FailsThroughout (program.resolvePath origin classifier hops member unit span) := by
  obtain ⟨steps, last⟩ := program.failsLike_followHops hops classifier
  obtain ⟨pairwise, each⟩ := program.carriesFailure_followHops hops classifier
  have final := Resolution.failsLike_andThen (program.followHops classifier hops).2
    fun owner => program.findProperty owner member.name
  let path := program.resolvePath origin classifier hops member unit span
  have property (hop : Hop) (among : hop ∈ path.hops) : program.CarriesFailure hop path.property :=
    ⟨final.trans (each hop among).1, final.trans (each hop among).2⟩
  have found (resolved : path.property.isResolved) :
      path.classifier.isResolved ∧ ∀ hop ∈ path.hops, hop.target.isResolved :=
    ⟨(final.trans last).isResolved resolved,
      fun hop among => (property hop among).1.isResolved resolved⟩
  refine ⟨⟨steps, final.trans last⟩, pairwise, property, found, ?_⟩
  rw [MemberPath.isResolved, Bool.and_eq_true, Bool.and_eq_true, List.all_eq_true]
  exact ⟨fun whole => whole.2, fun resolved => ⟨found resolved, resolved⟩⟩

end Program

namespace Resolved

/-- The outcomes of steps in order and then of a member, each with its place. -/
def outcomes (hops : List Hop) (member : Syntax.Identifier) (property : Resolution PropertyIndex) :
    List (Resolution Unit × Span) :=
  hops.map (fun hop => (hop.target.map fun _ => (), hop.name.span)) ++
    [(property.map fun _ => (), member.span)]

/-- The first outcome that is not a success. -/
def firstFailure? (outcomes : List (Resolution Unit × Span)) : Option (Resolution Unit × Span) :=
  outcomes.find? fun outcome => !outcome.1.isResolved

/-- The place of what was not found: the written classifier or, when the path has a classifier,
the first failure, provided that it is not an ambiguity. -/
def MemberPath.NotFoundAt (path : MemberPath) (span : Span) : Prop :=
  (∃ name, path.origin = .type name ∧ path.classifier = .notFound ∧ span = name.span) ∨
    path.classifier.isResolved ∧
      firstFailure? (outcomes path.hops path.member path.property) = some (.notFound, span)

end Resolved

namespace Rules

/-- There is one finding, in the unit, where something fails, and none if nothing does. -/
structure ReportsOnce (findings : List Finding) (unit : UnitId) (fails : Span → Prop) : Prop where
  atMostOne : findings.length ≤ 1
  reported : ∀ other span, (∃ finding ∈ findings, finding.unit = other ∧ finding.span = span) ↔
    other = unit ∧ fails span

variable {unit : UnitId} {fails : Span → Prop}

theorem reportsOnce_nil (nowhere : ∀ span, ¬ fails span) : ReportsOnce [] unit fails :=
  ⟨Nat.zero_le 1, by simp [nowhere]⟩

theorem reportsOnce_singleton (problem : Problem) {place : Span}
    (there : ∀ span, fails span ↔ span = place) :
    ReportsOnce [⟨problem, unit, place⟩] unit fails :=
  ⟨Nat.le_refl 1, by simp [there, eq_comm]⟩

/-- A first failure that is not an ambiguity is reported at its place. -/
theorem reportsOnce_notFound (problem : Problem) (place : Span) :
    ReportsOnce [⟨problem, unit, place⟩] unit fun span =>
      some ((.notFound : Resolution Unit), place) = some (.notFound, span) :=
  reportsOnce_singleton problem fun span => by simp [eq_comm]

theorem ReportsOnce.congr {findings : List Finding} {other : Span → Prop}
    (reports : ReportsOnce findings unit fails) (same : ∀ span, other span ↔ fails span) :
    ReportsOnce findings unit other :=
  ⟨reports.atMostOne, fun elsewhere span => by rw [reports.reported, same]⟩

theorem reportsOnce_brokenMember (path : MemberPath) :
    ReportsOnce (brokenMember path) path.unit fun span =>
      firstFailure? (outcomes [] path.member path.property) = some (.notFound, span) := by
  unfold brokenMember
  cases path.property with
  | resolved property => exact reportsOnce_nil fun _ fails => by cases fails
  | ambiguous => exact reportsOnce_nil fun _ fails => by cases fails
  | notFound => exact reportsOnce_notFound _ path.member.span

/-- Only the first failure is reported. -/
theorem reportsOnce_brokenHop (path : MemberPath) (hops : List Hop) :
    ReportsOnce (brokenHop path.unit (brokenMember path) hops) path.unit fun span =>
      firstFailure? (outcomes hops path.member path.property) = some (.notFound, span) := by
  induction hops with
  | nil => exact reportsOnce_brokenMember path
  | cons hop rest ih =>
    rw [brokenHop, outcomes, List.map_cons]
    cases hop.target with
    | resolved associationEnd => exact ih
    | ambiguous => exact reportsOnce_nil fun _ fails => by cases fails
    | notFound => exact reportsOnce_notFound _ hop.name.span

theorem reportsOnce_memberPath (path : MemberPath) :
    ReportsOnce (memberPath path) path.unit path.NotFoundAt := by
  unfold memberPath
  cases found : path.classifier with
  | resolved classifier =>
    refine (reportsOnce_brokenHop path path.hops).congr fun span => ?_
    simp [MemberPath.NotFoundAt, found]
  | ambiguous => exact reportsOnce_nil (by simp [MemberPath.NotFoundAt, found])
  | notFound =>
    cases origin : path.origin with
    | this => exact reportsOnce_nil (by simp [MemberPath.NotFoundAt, found, origin])
    | type name => exact reportsOnce_singleton _ (by simp [MemberPath.NotFoundAt, found, origin])

end Rules

/-- A failure along a member path is carried to its end and reported once: the property is found
only together with the classifier and every step, a later outcome repeats the failure before it,
and the rules have one finding about the path, at the first failure, exactly when that is a name
that was not found. -/
theorem resolvePath_fails_throughout (program : Program) (origin : Origin)
    (classifier : Resolution ClassifierIndex) (hops : List Syntax.Identifier)
    (member : Syntax.Identifier) (unit : UnitId) (span : Span) :
    let path := program.resolvePath origin classifier hops member unit span
    program.FailsThroughout path ∧ Rules.ReportsOnce (Rules.memberPath path) unit path.NotFoundAt :=
  ⟨program.failsThroughout_resolvePath origin classifier hops member unit span,
    Rules.reportsOnce_memberPath _⟩

end DomainLang
