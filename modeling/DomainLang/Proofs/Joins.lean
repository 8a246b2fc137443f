import DomainLang.Association.Join
import DomainLang.Proofs.Resolution
import Mathlib.Data.List.Forall2

/-!
# Direct joins

A condition is the conjunction of its conjuncts, and a direct join is a condition each of whose
conjuncts equates a property of the class at hand with a property of the opposite class. The
pairs of the join are those of its equations from left to right, so neither parentheses nor the
sides on which the operands are written have an influence.
-/

namespace DomainLang

open Resolved

/-- The conditions that must hold together, left to right; none of them is a conjunction. -/
def Resolved.Criteria.conjuncts : Criteria → List Criteria
  | .and left right => left.conjuncts ++ right.conjuncts
  | criteria => [criteria]

namespace Association

variable {opposite : ClassifierIndex}

/-- One path is a property of the class at hand and the other a property of the opposite class,
and all of their names were found. -/
structure DirectPaths (opposite : ClassifierIndex) (this other : MemberPath)
    (pair : PropertyIndex × PropertyIndex) : Prop where
  atHand : this.origin = .this
  atType : ∃ name, other.origin = .type name
  noHops : this.hops = [] ∧ other.hops = []
  found : ∃ classifier, this.classifier = .resolved classifier
  opposite : other.classifier = .resolved opposite
  properties : this.property = .resolved pair.1 ∧ other.property = .resolved pair.2

/-- A condition is an equation between a property of the class at hand and a property of the
opposite class, written on either side. -/
inductive IsEquation (opposite : ClassifierIndex) :
    Criteria → PropertyIndex × PropertyIndex → Prop
  | thisFirst {this other : MemberPath} {pair : PropertyIndex × PropertyIndex}
      (direct : DirectPaths opposite this other pair) (span : Span) :
      IsEquation opposite (.operator (.member this) .equal (.member other) span) pair
  | thisSecond {this other : MemberPath} {pair : PropertyIndex × PropertyIndex}
      (direct : DirectPaths opposite this other pair) (span : Span) :
      IsEquation opposite (.operator (.member other) .equal (.member this) span) pair

/-- Two conditions are the same, or the same equation with its sides exchanged. -/
inductive Mirrors : Criteria → Criteria → Prop
  | same (criteria : Criteria) : Mirrors criteria criteria
  | exchanged (source target : Value) (first second : Span) :
      Mirrors (.operator source .equal target first) (.operator target .equal source second)

/-- Two operands are sides of an equation when one starts at the class at hand and the other
does not. -/
theorem thisAndOther?_eq_some_iff {source target : Value} {this other : MemberPath} :
    thisAndOther? source target = some (this, other) ↔
      (source = .member this ∧ target = .member other ∨
        source = .member other ∧ target = .member this) ∧
      this.isThis = true ∧ other.isThis = false := by
  constructor
  · intro sides
    unfold thisAndOther? at sides
    split at sides
    · split at sides <;> cases sides
      · exact ⟨.inl ⟨rfl, rfl⟩, ‹_›, ‹_›⟩
      · exact ⟨.inr ⟨rfl, rfl⟩, ‹_›, ‹_›⟩
    · cases sides
  · rintro ⟨⟨rfl, rfl⟩ | ⟨rfl, rfl⟩, isThis, isOther⟩ <;> simp [thisAndOther?, isThis, isOther]

/-- What an equation compares. -/
theorem equationPair?_eq_some_iff {source target : Value} {property otherProperty : PropertyIndex} :
    equationPair? opposite source target = some (property, otherProperty) ↔
      ∃ this other, thisAndOther? source target = some (this, other) ∧
        (this.hops = [] ∧ other.hops = [] ∧ this.classifier.isResolved = true ∧
          other.classifier = .resolved opposite) ∧
        this.property = .resolved property ∧ other.property = .resolved otherProperty := by
  simp only [equationPair?, Option.bind_eq_bind, Option.bind_eq_some_iff, Prod.exists]
  refine exists_congr fun this => exists_congr fun other => and_congr_right fun _ => ?_
  have condition : (this.hops.isEmpty && other.hops.isEmpty && this.classifier.isResolved &&
      other.classifier.value? = some opposite) = true ↔
      this.hops = [] ∧ other.hops = [] ∧ this.classifier.isResolved = true ∧
        other.classifier = .resolved opposite := by
    simp [Resolution.value?_eq_some, and_assoc]
  split
  · next direct =>
    simp [condition.mp direct, Option.bind_eq_some_iff, Resolution.value?_eq_some]
  · next indirect =>
    simp only [reduceCtorEq, false_iff]
    exact fun direct => indirect (condition.mpr direct.1)

/-- A path that does not start at the class at hand starts at a class given by name. -/
theorem isThis_eq_false_iff {path : MemberPath} :
    path.isThis = false ↔ ∃ name, path.origin = .type name := by
  cases origin : path.origin <;> simp [MemberPath.isThis, origin]

/-- The operands of an equation are a property of the class at hand and one of the opposite
class. -/
theorem isEquation_iff {source target : Value} (span : Span)
    {pair : PropertyIndex × PropertyIndex} :
    equationPair? opposite source target = some pair ↔
      IsEquation opposite (.operator source .equal target span) pair := by
  obtain ⟨property, otherProperty⟩ := pair
  rw [equationPair?_eq_some_iff]
  constructor
  · rintro ⟨this, other, sides, ⟨thisHops, otherHops, found, leads⟩, reached⟩
    obtain ⟨written, isThis, isOther⟩ := thisAndOther?_eq_some_iff.mp sides
    have direct : DirectPaths opposite this other (property, otherProperty) :=
      { atHand := of_decide_eq_true isThis
        atType := isThis_eq_false_iff.mp isOther
        noHops := ⟨thisHops, otherHops⟩
        found := Resolution.isResolved_iff.mp found
        opposite := leads
        properties := reached }
    rcases written with ⟨rfl, rfl⟩ | ⟨rfl, rfl⟩
    · exact .thisFirst direct span
    · exact .thisSecond direct span
  · have sides {this other : MemberPath}
        (direct : DirectPaths opposite this other (property, otherProperty)) :
        (this.isThis = true ∧ other.isThis = false) ∧ (this.hops = [] ∧ other.hops = [] ∧
          this.classifier.isResolved = true ∧ other.classifier = .resolved opposite) ∧
        this.property = .resolved property ∧ other.property = .resolved otherProperty :=
      ⟨⟨decide_eq_true direct.atHand, isThis_eq_false_iff.mpr direct.atType⟩,
        ⟨direct.noHops.1, direct.noHops.2, Resolution.isResolved_iff.mpr direct.found,
          direct.opposite⟩, direct.properties⟩
    rintro (⟨direct, _⟩ | ⟨direct, _⟩)
    · exact ⟨_, _, thisAndOther?_eq_some_iff.mpr ⟨.inl ⟨rfl, rfl⟩, (sides direct).1⟩,
        (sides direct).2⟩
    · exact ⟨_, _, thisAndOther?_eq_some_iff.mpr ⟨.inr ⟨rfl, rfl⟩, (sides direct).1⟩,
        (sides direct).2⟩

/-- A condition joins pairs when its conjuncts are equations of these pairs, in order. -/
theorem equationPairs?_eq_some_iff {criteria : Criteria}
    {pairs : List (PropertyIndex × PropertyIndex)} :
    equationPairs? opposite criteria = some pairs ↔
      List.Forall₂ (IsEquation opposite) criteria.conjuncts pairs := by
  induction criteria generalizing pairs with
  | and left right leftIff rightIff =>
    simp only [equationPairs?, Option.bind_eq_bind, Option.bind_eq_some_iff, Option.pure_def,
      Option.some.injEq, leftIff, rightIff, Criteria.conjuncts]
    constructor
    · rintro ⟨first, leftJoins, second, rightJoins, rfl⟩
      exact List.rel_append leftJoins rightJoins
    · intro joins
      have first := List.forall₂_take_append _ _ _ joins.flip
      have second := List.forall₂_drop_append _ _ _ joins.flip
      exact ⟨_, first.flip, _, second.flip, List.take_append_drop ..⟩
  | operator source comparison target span =>
    simp only [Criteria.conjuncts, List.forall₂_cons_left_iff, List.forall₂_nil_left_iff]
    by_cases equal : comparison = .equal
    · subst equal
      simp only [equationPairs?, Option.bind_eq_bind, Option.bind_eq_some_iff, Option.pure_def,
        Option.some.injEq, isEquation_iff span]
      constructor
      · rintro ⟨pair, equation, rfl⟩
        exact ⟨pair, [], equation, rfl, rfl⟩
      · rintro ⟨pair, _, equation, rfl, rfl⟩
        exact ⟨pair, equation, rfl⟩
    · constructor
      · intro joins
        cases comparison with
        | equal => exact absurd rfl equal
        | _ => cases joins
      · rintro ⟨pair, _, equation, -, -⟩
        cases equation <;> exact absurd rfl equal
  | all _ | or _ _ | edgePoint _ _ =>
    simp only [Criteria.conjuncts, List.forall₂_cons_left_iff]
    constructor
    · intro joins
      cases joins
    · rintro ⟨pair, _, equation, -, -⟩
      cases equation

/-- A direct join is a conjunction of equations with a class that was found. -/
theorem directJoinPairs?_eq_some_iff {criteria : Criteria}
    {opposite : Resolution ClassifierIndex} {pairs : List (PropertyIndex × PropertyIndex)} :
    directJoinPairs? criteria opposite = some pairs ↔ ∃ classifier,
      opposite = .resolved classifier ∧
        List.Forall₂ (IsEquation classifier) criteria.conjuncts pairs := by
  simp only [directJoinPairs?, Option.bind_eq_some_iff, Resolution.value?_eq_some,
    equationPairs?_eq_some_iff]

/-- Exchanging the sides of an equation leaves its pair. -/
theorem Mirrors.isEquation_iff {first second : Criteria} (mirrors : Mirrors first second)
    (pair : PropertyIndex × PropertyIndex) :
    IsEquation opposite first pair ↔ IsEquation opposite second pair := by
  cases mirrors with
  | same => rfl
  | exchanged source target =>
    constructor
    all_goals
      rintro (⟨direct, _⟩ | ⟨direct, _⟩)
      · exact .thisSecond direct _
      · exact .thisFirst direct _

/-- Conditions restate each other when their conjuncts are the same from left to right, up to
exchanged sides. -/
def Restates (first second : Criteria) : Prop :=
  List.Forall₂ Mirrors first.conjuncts second.conjuncts

theorem forall₂_isEquation_iff {first second : List Criteria}
    (mirrors : List.Forall₂ Mirrors first second) (pairs : List (PropertyIndex × PropertyIndex)) :
    List.Forall₂ (IsEquation opposite) first pairs ↔
      List.Forall₂ (IsEquation opposite) second pairs := by
  induction mirrors generalizing pairs with
  | nil => rfl
  | cons here _ ih => simp only [List.forall₂_cons_left_iff, here.isEquation_iff, ih]

/-- A relationship is a direct join exactly when the opposite class was found and the
relationship is a conjunction of equations between a property of the class at hand and a
property of the opposite class; the join consists of their pairs from left to right. Neither the
nesting of the conjunction nor the sides of an equation matter. -/
theorem directJoin_exact (criteria : Criteria) (opposite : Resolution ClassifierIndex) :
    (∀ pairs, directJoinPairs? criteria opposite = some pairs ↔ ∃ classifier,
      opposite = .resolved classifier ∧
        List.Forall₂ (IsEquation classifier) criteria.conjuncts pairs) ∧
    ∀ other, Restates criteria other →
      directJoinPairs? other opposite = directJoinPairs? criteria opposite := by
  refine ⟨fun pairs => directJoinPairs?_eq_some_iff, fun other restates => ?_⟩
  apply Option.ext
  intro pairs
  rw [directJoinPairs?_eq_some_iff, directJoinPairs?_eq_some_iff]
  exact exists_congr fun classifier => and_congr_right fun _ =>
    (forall₂_isEquation_iff restates pairs).symm

/-- An equation between a property of a question and one of an answer. -/
def questionEquation (question answer : Nat) : Value × Value :=
  (.member { (default : MemberPath) with
    origin := .this
    classifier := .resolved (.klass ⟨0⟩)
    property := .resolved ⟨question⟩ },
   .member { (default : MemberPath) with
    origin := .type (.bare "Answer")
    classifier := .resolved (.klass ⟨1⟩)
    property := .resolved ⟨answer⟩ })

/-- Three equations in other parentheses, the first with its sides exchanged. -/
theorem directJoin_exact_regrouped :
    let first := questionEquation 0 3
    let second := questionEquation 1 4
    let third := questionEquation 2 5
    let grouped : Criteria := .and
      (.and (.operator first.1 .equal first.2 default) (.operator second.1 .equal second.2 default))
      (.operator third.1 .equal third.2 default)
    let regrouped : Criteria := .and (.operator first.2 .equal first.1 default)
      (.and (.operator second.1 .equal second.2 default)
        (.operator third.1 .equal third.2 default))
    Restates grouped regrouped ∧
      directJoinPairs? regrouped (.resolved (.klass ⟨1⟩)) =
        some [(⟨0⟩, ⟨3⟩), (⟨1⟩, ⟨4⟩), (⟨2⟩, ⟨5⟩)] := by
  intro first second third grouped regrouped
  have restates : Restates grouped regrouped :=
    .cons (.exchanged ..) (.cons (.same _) (.cons (.same _) .nil))
  exact ⟨restates, ((directJoin_exact grouped (.resolved (.klass ⟨1⟩))).2 regrouped restates).trans
    (by decide)⟩

end Association
end DomainLang
