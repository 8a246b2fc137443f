import DomainLang.Proofs.Model.Integrity
import DomainLang.Proofs.Model.Typing

/-!
# Foreign keys of a model

A relationship is a direct join when it is a conjunction of equations, each between a property
of the class at hand and a property of the opposite class. `Model.Joins` lists the two
properties of every equation from left to right. The association then has one foreign key for
each pair, all on the source end if that is to-one and else on the target end if that is.

An end is owned by the class that the opposite end leads to, so the foreign key on the source
end is the property of the opposite class, and the one on the target end is the property of
the class at hand.
-/

namespace DomainLang

namespace Model

/-- One operand is a path from the class at hand, the other a path from a class by name. -/
def Sides (source target : Value) (this other : MemberPath) : Prop :=
  source = .thisMember this ∧ target = .typeMember other ∨
    source = .typeMember other ∧ target = .thisMember this

/-- An equation between a property of the class at hand and one of the opposite class, written
in either order. -/
def Equates (opposite : ClassId) (source target : Value) (pair : PropertyId × PropertyId) : Prop :=
  ∃ this other, Sides source target this other ∧
    (this.hops = [] ∧ other.hops = [] ∧ other.classifier = .klass opposite) ∧
    this.property = pair.1 ∧ other.property = pair.2

/-- A conjunction of equations and the pairs of properties that it joins, left to right. -/
inductive Joins (opposite : ClassId) : Criteria → List (PropertyId × PropertyId) → Prop
  | equation {source target : Value} {pair : PropertyId × PropertyId}
      (equates : Equates opposite source target pair) :
      Joins opposite (.operator source .equal target) [pair]
  | and {left right : Criteria} {leftPairs rightPairs : List (PropertyId × PropertyId)}
      (inLeft : Joins opposite left leftPairs) (inRight : Joins opposite right rightPairs) :
      Joins opposite (.and left right) (leftPairs ++ rightPairs)

end Model

namespace DomainModel

open Model

/-- The foreign keys on the ends of an association. -/
def joinKeys (model : DomainModel) (association : AssociationId) : List ForeignKey :=
  model.parts.foreignKeys.filter fun key =>
    (model.parts.associationEnd key.associationEnd).association = association

def sourceEnd (model : DomainModel) (association : AssociationId) : AssociationEnd :=
  model.parts.associationEnd (model.parts.association association).source

def targetEnd (model : DomainModel) (association : AssociationId) : AssociationEnd :=
  model.parts.associationEnd (model.parts.association association).target

/-- The pairs of properties that the relationship of an association joins. -/
def JoinsBy (model : DomainModel) (association : AssociationId)
    (pairs : List (PropertyId × PropertyId)) : Prop :=
  Joins (model.targetEnd association).target (model.parts.association association).criteria pairs

/-- Where the foreign keys of an association stand and which there are. -/
structure KeysPlaced (model : DomainModel) (association : AssociationId) : Prop where
  direct_iff : (model.parts.association association).join = .direct ↔
    ∃ pairs, model.JoinsBy association pairs
  onSource : (model.sourceEnd association).multiplicity.isToOne →
    ∀ pairs, model.JoinsBy association pairs → model.joinKeys association =
      pairs.map fun pair => ⟨(model.parts.association association).source, pair.2, pair.1⟩
  onTarget : ¬ (model.sourceEnd association).multiplicity.isToOne →
    (model.targetEnd association).multiplicity.isToOne →
    ∀ pairs, model.JoinsBy association pairs → model.joinKeys association =
      pairs.map fun pair => ⟨(model.parts.association association).target, pair.1, pair.2⟩
  toMany : ¬ (model.sourceEnd association).multiplicity.isToOne →
    ¬ (model.targetEnd association).multiplicity.isToOne → model.joinKeys association = []
  predicate : (model.parts.association association).join = .predicate →
    model.joinKeys association = []

/-- A foreign key is a property of the class that owns a to-one end, and its key is one of the
class that the end leads to. -/
structure KeyTyped (model : DomainModel) (key : ForeignKey) : Prop where
  toOne : (model.parts.associationEnd key.associationEnd).multiplicity.isToOne
  direct : (model.parts.association
    (model.parts.associationEnd key.associationEnd).association).join = .direct
  foreignKey : key.foreignKey ∈
    model.properties (.klass (model.parts.associationEnd key.associationEnd).owner)
  required : (model.parts.associationEnd key.associationEnd).multiplicity = .oneToOne →
    (model.parts.property key.foreignKey).optional = false
  key : key.key ∈ model.properties (.klass (model.parts.associationEnd key.associationEnd).target)

end DomainModel

namespace Assembly

open Allocation (position)
open Resolved (MemberPath)

variable {program : Program} {allocation : Allocation} {model : DomainModel}

/-- What an assembled path says about the path. -/
structure PathMade (allocation : Allocation) (path : MemberPath) (result : Model.MemberPath) :
    Prop where
  hops_eq_nil : result.hops = [] ↔ path.hops = []
  starts : ∃ classifier, path.classifier = .resolved classifier ∧
    result.classifier = allocation.classifierPosition classifier ∧
    allocation.HasClassifier classifier
  reaches : ∃ property, path.property = .resolved property ∧
    result.property = position allocation.properties property

theorem pathMade {path : MemberPath} {result : Model.MemberPath}
    (assembled : memberPath allocation path = .ok result) : PathMade allocation path result := by
  simp only [memberPath, bind_eq_ok, pure_eq_ok, resolved_eq_ok, Allocation.classifierId_eq_ok,
    Allocation.idOf_eq_ok] at assembled
  obtain ⟨classifier, starts, hops, walked, property, reaches, _, ⟨has, rfl⟩, _, ⟨-, rfl⟩, rfl⟩ :=
    assembled
  refine ⟨?_, ⟨classifier, starts, rfl, has⟩, property, reaches, rfl⟩
  rw [← List.length_eq_zero_iff, ← (mapM_eq_ok.mp walked).length_eq, List.length_eq_zero_iff]

/-- A path starts at the same class in the program and in the model. -/
theorem PathMade.classifier_eq_iff {path : MemberPath} {result : Model.MemberPath}
    (made : PathMade allocation path result) {klass : ClassIndex} :
    result.classifier = .klass (position allocation.classes klass) ↔
      path.classifier = .resolved (.klass klass) := by
  obtain ⟨classifier, starts, same, has⟩ := made.starts
  rw [same, starts, Resolution.resolved.injEq]
  change allocation.classifierPosition classifier = allocation.classifierPosition (.klass klass) ↔ _
  exact Allocation.classifierPosition_inj has

/-- A path becomes an operand of its own kind. -/
theorem value_member_eq_ok {path : MemberPath} {result : Model.Value} :
    value allocation (.member path) = .ok result ↔ ∃ assembled,
      memberPath allocation path = .ok assembled ∧
        (if path.isThis then .thisMember assembled else .typeMember assembled) = result := by
  cases origin : path.origin <;>
    simp only [value, origin, bind_eq_ok, pure_eq_ok, MemberPath.isThis, reduceCtorEq, decide_true,
      decide_false, if_true, if_false, Bool.false_eq_true]

/-- An operand with a path was assembled of an operand with a path. -/
theorem value_eq_ok_of_path {operand : Resolved.Value} {result : Model.Value}
    {path : Model.MemberPath} (assembled : value allocation operand = .ok result)
    (isPath : result.path? = some path) :
    ∃ source, operand = .member source ∧ memberPath allocation source = .ok path ∧
      (if source.isThis then .thisMember path else .typeMember path) = result := by
  cases operand with
  | member source =>
    obtain ⟨other, made, rfl⟩ := value_member_eq_ok.mp assembled
    refine ⟨source, rfl, ?_⟩
    split at isPath <;> cases isPath
    all_goals exact ⟨made, by simp [*]⟩
  | «variable» name parameter =>
    simp only [value, bind_eq_ok, pure_eq_ok] at assembled
    obtain ⟨_, -, _, -, rfl⟩ := assembled
    cases isPath
  | literal _ _ | literals _ _ | user _ =>
    cases assembled
    cases isPath

/-- The two properties of a pair with ids in place of indices. -/
def pairPosition (allocation : Allocation) (pair : PropertyIndex × PropertyIndex) :
    Model.PropertyId × Model.PropertyId :=
  (position allocation.properties pair.1, position allocation.properties pair.2)

/-- The sides of an equation are assembled of the sides of an equation. -/
theorem sides_iff {source target : Resolved.Value} {first second : Model.Value}
    (madeSource : value allocation source = .ok first)
    (madeTarget : value allocation target = .ok second) {this other : Model.MemberPath} :
    Model.Sides first second this other ↔ ∃ thisPath otherPath,
      Association.thisAndOther? source target = some (thisPath, otherPath) ∧
        memberPath allocation thisPath = .ok this ∧
        memberPath allocation otherPath = .ok other := by
  simp only [Association.thisAndOther?_eq_some_iff]
  constructor
  · rintro (⟨rfl, rfl⟩ | ⟨rfl, rfl⟩)
    all_goals
      obtain ⟨path, rfl, made, kind⟩ := value_eq_ok_of_path madeSource rfl
      obtain ⟨otherPath, rfl, madeOther, otherKind⟩ := value_eq_ok_of_path madeTarget rfl
      split at kind <;> cases kind
      split at otherKind <;> cases otherKind
    · exact ⟨path, otherPath, ⟨.inl ⟨rfl, rfl⟩, ‹_›, Bool.eq_false_iff.mpr ‹_›⟩, made, madeOther⟩
    · exact ⟨otherPath, path, ⟨.inr ⟨rfl, rfl⟩, ‹_›, Bool.eq_false_iff.mpr ‹_›⟩, madeOther, made⟩
  · rintro ⟨thisPath, otherPath, ⟨⟨rfl, rfl⟩ | ⟨rfl, rfl⟩, isThis, isOther⟩, made, madeOther⟩
    all_goals
      obtain ⟨first, assembled, rfl⟩ := value_member_eq_ok.mp madeSource
      obtain ⟨second, otherAssembled, rfl⟩ := value_member_eq_ok.mp madeTarget
      rw [isThis, isOther]
    · rw [made, Except.ok.injEq] at assembled
      rw [madeOther, Except.ok.injEq] at otherAssembled
      exact .inl (by simp [assembled, otherAssembled])
    · rw [made, Except.ok.injEq] at otherAssembled
      rw [madeOther, Except.ok.injEq] at assembled
      exact .inr (by simp [assembled, otherAssembled])

/-- The sides of an equation that was assembled are assembled. -/
theorem exists_memberPaths {source target : Resolved.Value} {first second : Model.Value}
    (madeSource : value allocation source = .ok first)
    (madeTarget : value allocation target = .ok second) {thisPath otherPath : MemberPath}
    (sides : Association.thisAndOther? source target = some (thisPath, otherPath)) :
    ∃ this other, memberPath allocation thisPath = .ok this ∧
      memberPath allocation otherPath = .ok other := by
  obtain ⟨⟨rfl, rfl⟩ | ⟨rfl, rfl⟩, -⟩ := Association.thisAndOther?_eq_some_iff.mp sides
  all_goals
    obtain ⟨assembled, made, -⟩ := value_member_eq_ok.mp madeSource
    obtain ⟨otherAssembled, madeOther, -⟩ := value_member_eq_ok.mp madeTarget
  · exact ⟨assembled, otherAssembled, made, madeOther⟩
  · exact ⟨otherAssembled, assembled, madeOther, made⟩

/-- An equation of the model is an equation of the program. -/
theorem equates_iff {opposite : ClassIndex} {source target : Resolved.Value}
    {first second : Model.Value} (madeSource : value allocation source = .ok first)
    (madeTarget : value allocation target = .ok second)
    {ids : Model.PropertyId × Model.PropertyId} :
    Model.Equates (position allocation.classes opposite) first second ids ↔
      ∃ pair, Association.equationPair? (.klass opposite) source target = some pair ∧
        pairPosition allocation pair = ids := by
  simp only [Model.Equates, sides_iff madeSource madeTarget, Prod.exists,
    Association.equationPair?_eq_some_iff]
  constructor
  · rintro ⟨this, other, ⟨thisPath, otherPath, sides, made, madeOther⟩,
      ⟨direct, otherDirect, leads⟩, first, second⟩
    obtain ⟨classifier, starts, -⟩ := (pathMade made).starts
    obtain ⟨property, reaches, id⟩ := (pathMade made).reaches
    obtain ⟨otherProperty, otherReaches, otherId⟩ := (pathMade madeOther).reaches
    refine ⟨property, otherProperty, ⟨thisPath, otherPath, sides, ⟨?_, ?_, ?_, ?_⟩, reaches,
      otherReaches⟩, Prod.ext (id.symm.trans first) (otherId.symm.trans second)⟩
    · exact (pathMade made).hops_eq_nil.mp direct
    · exact (pathMade madeOther).hops_eq_nil.mp otherDirect
    · exact Resolution.isResolved_iff.mpr ⟨classifier, starts⟩
    · exact (pathMade madeOther).classifier_eq_iff.mp leads
  · rintro ⟨property, otherProperty, ⟨thisPath, otherPath, sides, ⟨direct, otherDirect, -, leads⟩,
      reaches, otherReaches⟩, rfl⟩
    obtain ⟨this, other, made, madeOther⟩ := exists_memberPaths madeSource madeTarget sides
    refine ⟨this, other, ⟨thisPath, otherPath, sides, made, madeOther⟩, ⟨?_, ?_, ?_⟩, ?_, ?_⟩
    · exact (pathMade made).hops_eq_nil.mpr direct
    · exact (pathMade madeOther).hops_eq_nil.mpr otherDirect
    · exact (pathMade madeOther).classifier_eq_iff.mpr leads
    · obtain ⟨same, reachesSame, id⟩ := (pathMade made).reaches
      rw [reaches, Resolution.resolved.injEq] at reachesSame
      rw [id, reachesSame]
      rfl
    · obtain ⟨same, reachesSame, id⟩ := (pathMade madeOther).reaches
      rw [otherReaches, Resolution.resolved.injEq] at reachesSame
      rw [id, reachesSame]
      rfl

/-- A conjunction of equations of the model is one of the program. -/
theorem joins_iff {opposite : ClassIndex} {condition : Resolved.Criteria} {result : Model.Criteria}
    (assembled : criteria allocation condition = .ok result)
    {ids : List (Model.PropertyId × Model.PropertyId)} :
    Model.Joins (position allocation.classes opposite) result ids ↔
      ∃ pairs, Association.equationPairs? (.klass opposite) condition = some pairs ∧
        pairs.map (pairPosition allocation) = ids := by
  induction condition generalizing result ids with
  | all _ =>
    cases assembled
    constructor
    · intro joins
      cases joins
    · rintro ⟨pairs, ⟨⟩, -⟩
  | edgePoint path _ =>
    simp only [criteria, bind_eq_ok, pure_eq_ok] at assembled
    obtain ⟨_, -, rfl⟩ := assembled
    constructor
    · intro joins
      cases joins
    · rintro ⟨pairs, ⟨⟩, -⟩
  | or left right _ _ =>
    simp only [criteria, bind_eq_ok, pure_eq_ok] at assembled
    obtain ⟨_, -, _, -, rfl⟩ := assembled
    constructor
    · intro joins
      cases joins
    · rintro ⟨pairs, ⟨⟩, -⟩
  | and left right leftJoins rightJoins =>
    simp only [criteria, bind_eq_ok, pure_eq_ok] at assembled
    obtain ⟨_, assembledLeft, _, assembledRight, rfl⟩ := assembled
    simp only [Association.equationPairs?, Option.bind_eq_bind, Option.bind_eq_some_iff,
      Option.pure_def, Option.some.injEq]
    constructor
    · intro joins
      cases joins with
      | and inLeft inRight =>
        obtain ⟨first, leftPairs, rfl⟩ := (leftJoins assembledLeft).mp inLeft
        obtain ⟨second, rightPairs, rfl⟩ := (rightJoins assembledRight).mp inRight
        exact ⟨_, ⟨first, leftPairs, second, rightPairs, rfl⟩, List.map_append⟩
    · rintro ⟨_, ⟨first, leftPairs, second, rightPairs, rfl⟩, rfl⟩
      rw [List.map_append]
      exact .and ((leftJoins assembledLeft).mpr ⟨first, leftPairs, rfl⟩)
        ((rightJoins assembledRight).mpr ⟨second, rightPairs, rfl⟩)
  | operator source comparison target _ =>
    simp only [criteria, bind_eq_ok, pure_eq_ok] at assembled
    obtain ⟨_, madeSource, _, madeTarget, rfl⟩ := assembled
    constructor
    · intro joins
      cases joins with
      | equation equates =>
        obtain ⟨pair, equation, rfl⟩ := (equates_iff madeSource madeTarget).mp equates
        exact ⟨[pair], by simp [Association.equationPairs?, equation], rfl⟩
    · rintro ⟨pairs, joined, rfl⟩
      cases comparison with
      | equal =>
        simp only [Association.equationPairs?, Option.bind_eq_bind, Option.bind_eq_some_iff,
          Option.pure_def, Option.some.injEq] at joined
        obtain ⟨pair, equation, rfl⟩ := joined
        exact .equation ((equates_iff madeSource madeTarget).mpr ⟨pair, equation, rfl⟩)
      | _ => cases joined

end Assembly

namespace Program

open Resolved

variable {program : Program} {registry : Registry} {index : AssociationIndex}

/-- A relationship is a direct join of the pairs that its equations compare, or it is a predicate
and has no foreign keys. -/
theorem LinkedReferences.join_cases (references : program.LinkedReferences registry)
    (sound : program.Sound) (holds : program.associations.Holds index) :
    ∃ relationship opposite,
      (program.associations.get index).relationship = some relationship ∧
      (program.associationEnds.get (program.associations.get index).target).target =
        .resolved opposite ∧
      ((∃ pairs, Association.equationPairs? (.klass opposite) relationship = some pairs ∧
          (program.associations.get index).join = some .direct ∧
          (program.associations.get index).foreignKeys =
            Association.foreignKeys program (program.associations.get index) pairs) ∨
        Association.equationPairs? (.klass opposite) relationship = none ∧
          (program.associations.get index).join = some .predicate ∧
          (program.associations.get index).foreignKeys = []) := by
  obtain ⟨relationship, -, filled, -⟩ := sound.relationships index holds
  obtain ⟨opposite, leads, -⟩ := sound.endTargets _ (sound.coherent.ends.holds_target holds)
  refine ⟨relationship, opposite, filled, leads, ?_⟩
  have classified := references.joins index holds
  cases joined : Association.equationPairs? (.klass opposite) relationship with
  | none =>
    simp only [Association.classify, filled, leads, Resolution.map, Association.directJoinPairs?,
      Resolution.value?, Option.bind_some, joined] at classified
    rw [← classified]
    exact .inr ⟨rfl, rfl, rfl⟩
  | some pairs =>
    simp only [Association.classify, filled, leads, Resolution.map, Association.directJoinPairs?,
      Resolution.value?, Option.bind_some, joined] at classified
    rw [← classified]
    exact .inl ⟨pairs, rfl, rfl, rfl⟩

end Program

namespace Model.Joins

/-- The properties that equations pair are properties of the two classes. -/
theorem typed {model : DomainModel} {this : ClassifierId} {opposite : ClassId}
    {criteria : Criteria} {pairs : List (PropertyId × PropertyId)}
    (joins : Joins opposite criteria pairs) (typed : model.CriteriaTyped this criteria) :
    ∀ pair ∈ pairs, pair.1 ∈ model.properties this ∧
      pair.2 ∈ model.properties (.klass opposite) := by
  have here {path : MemberPath} (direct : path.hops = []) (typedPath : model.PathTyped path) :
      path.property ∈ model.properties path.classifier := by
    obtain ⟨last, walks, has, -⟩ := typedPath
    rw [direct] at walks
    generalize path.classifier = start at walks ⊢
    cases walks
    exact has
  induction joins with
  | equation equates =>
    obtain ⟨thisPath, otherPath, sides, ⟨direct, otherDirect, leads⟩, first, second⟩ := equates
    obtain ⟨typedSource, typedTarget⟩ := typed
    intro pair member
    rw [List.mem_singleton.mp member, ← first, ← second, ← leads]
    rcases sides with ⟨rfl, rfl⟩ | ⟨rfl, rfl⟩
    · exact ⟨typedSource.1 ▸ here direct typedSource.2, here otherDirect typedTarget⟩
    · exact ⟨typedTarget.1 ▸ here direct typedTarget.2, here otherDirect typedSource⟩
  | and _ _ inLeft inRight =>
    intro pair member
    rcases List.mem_append.mp member with first | second
    · exact inLeft typed.1 pair first
    · exact inRight typed.2 pair second

end Model.Joins

namespace DomainModel.AssembledFrom

open Allocation (position)

variable {model : DomainModel} {workspace : Workspace} {units : List CompilationUnit}
  {recorded : List RecordedDeclaration} {fragments : List CompilationUnit}
  {index : AssociationIndex}

/-- The foreign keys on the ends of an association are those of the association. -/
theorem joinKeys_position (assembled : model.AssembledFrom units recorded fragments workspace)
    (holds : workspace.program.associations.Holds index) :
    model.joinKeys (position workspace.allocation.associations index) =
      (workspace.program.associations.get index).foreignKeys.map
        (Assembly.keyPosition workspace.allocation) := by
  obtain ⟨analysed, -, sound, covers, made, -⟩ := assembled
  rw [DomainModel.joinKeys, made.foreignKeys_eq]
  refine filter_flatMap_of_owner covers.associations.nodup ?_ ?_
    (covers.associations.mem_iff.mpr holds)
  · intro other known key isKey
    obtain ⟨written, isWritten, rfl⟩ := List.mem_map.mp isKey
    have held := covers.associations.mem_iff.mp known
    obtain ⟨heldEnd, -⟩ := sound.foreignKeys other held written isWritten
    have onEnd := sound.coherent.ends.association_eq_iff held heldEnd
    rw [Assembly.keyPosition, (made.associationEnd (covers.associationEnds.mem_iff.mpr
      heldEnd)).association, onEnd.mpr (analysed.references.associationEnd_of_mem_foreignKeys held
      isWritten)]
  · intro first known second _ same
    exact (Allocation.position_inj known).mp same

/-- Whether an association is a direct join, where its foreign keys stand and which there are. -/
theorem keysPlaced (assembled : model.AssembledFrom units recorded fragments workspace)
    (holds : workspace.program.associations.Holds index) :
    model.KeysPlaced (position workspace.allocation.associations index) := by
  have keysOfEnds := assembled.joinKeys_position holds
  obtain ⟨analysed, -, sound, covers, made, -⟩ := assembled
  have record := made.association (covers.associations.mem_iff.mpr holds)
  have source := made.associationEnd (covers.associationEnds.mem_iff.mpr
    (sound.coherent.ends.holds_source holds))
  have target := made.associationEnd (covers.associationEnds.mem_iff.mpr
    (sound.coherent.ends.holds_target holds))
  obtain ⟨relationship, opposite, filled, leads, kind⟩ :=
    analysed.references.join_cases sound holds
  have sourceEnd : model.sourceEnd _ = _ := congrArg model.parts.associationEnd record.source
  have targetEnd : model.targetEnd _ = _ := congrArg model.parts.associationEnd record.target
  have joinsBy (ids : List (Model.PropertyId × Model.PropertyId)) :
      model.JoinsBy (position workspace.allocation.associations index) ids ↔
        ∃ pairs, Association.equationPairs? (.klass opposite) relationship = some pairs ∧
          pairs.map (Assembly.pairPosition workspace.allocation) = ids := by
    rw [DomainModel.JoinsBy, targetEnd, target.target opposite leads]
    exact Assembly.joins_iff (record.criteria relationship filled)
  rcases kind with ⟨pairs, joined, direct, keys⟩ | ⟨apart, predicate, keys⟩
  · simp only [joined, Option.some.injEq, exists_eq_left'] at joinsBy
    rw [keys, Association.foreignKeys] at keysOfEnds
    constructor
    case direct_iff => simp [record.join, direct, joinsBy]
    case onSource =>
      rintro toOne ids isIds
      rw [sourceEnd, source.multiplicity] at toOne
      rw [keysOfEnds, if_pos toOne, ← (joinsBy ids).mp isIds, record.source]
      simp [Assembly.keyPosition, Assembly.pairPosition]
    case onTarget =>
      rintro toMany toOne ids isIds
      rw [sourceEnd, source.multiplicity] at toMany
      rw [targetEnd, target.multiplicity] at toOne
      rw [keysOfEnds, if_neg toMany, if_pos toOne, ← (joinsBy ids).mp isIds, record.target]
      simp [Assembly.keyPosition, Assembly.pairPosition]
    case toMany =>
      rintro sourceMany targetMany
      rw [sourceEnd, source.multiplicity] at sourceMany
      rw [targetEnd, target.multiplicity] at targetMany
      rw [keysOfEnds, if_neg sourceMany, if_neg targetMany, List.map_nil]
    case predicate => simp [record.join, direct]
  · simp only [apart, reduceCtorEq, false_and, exists_false, iff_false] at joinsBy
    rw [keys, List.map_nil] at keysOfEnds
    constructor
    case direct_iff => simp [record.join, predicate, joinsBy]
    case onSource => exact fun _ ids isIds => absurd isIds (joinsBy ids)
    case onTarget => exact fun _ _ ids isIds => absurd isIds (joinsBy ids)
    case toMany => exact fun _ _ => keysOfEnds
    case predicate => exact fun _ => keysOfEnds

/-- A foreign key of an end that leads to exactly one object is required. -/
theorem required_of_oneToOne (assembled : model.AssembledFrom units recorded fragments workspace)
    (holds : workspace.program.associations.Holds index) {key : Resolved.ForeignKey}
    (member : key ∈ (workspace.program.associations.get index).foreignKeys)
    (one : (workspace.program.associationEnds.get key.associationEnd).declaration.multiplicity =
      .oneToOne) :
    (workspace.program.properties.get key.foreignKey).declaration.optional = false := by
  have quiet := assembled.free.referencesFound.criteria
  simp only [Rules.criteria, Quiet.append, Quiet.flatMap] at quiet
  have rule := quiet.2 _ (Arena.get_mem_records holds) key member
  by_contra optional
  rw [Bool.not_eq_false] at optional
  simp [Rules.foreignKeyRule, one, optional, Problem.kind, ProblemKind.isWarning] at rule

/-- Each end of an association is owned by the class that the other end leads to. -/
theorem ends_crossed (assembled : model.AssembledFrom units recorded fragments workspace)
    (holds : workspace.program.associations.Holds index) {id : Model.AssociationId}
    (isId : position workspace.allocation.associations index = id) :
    (model.sourceEnd id).association = id ∧ (model.targetEnd id).association = id ∧
      (model.sourceEnd id).owner = (model.targetEnd id).target ∧
      (model.targetEnd id).owner = (model.sourceEnd id).target := by
  obtain ⟨-, -, sound, covers, made, -⟩ := assembled
  subst isId
  have known := covers.associations.mem_iff.mpr holds
  have heldSource := sound.coherent.ends.holds_source holds
  have heldTarget := sound.coherent.ends.holds_target holds
  have source := made.associationEnd (covers.associationEnds.mem_iff.mpr heldSource)
  have target := made.associationEnd (covers.associationEnds.mem_iff.mpr heldTarget)
  obtain ⟨owner, owned, leads, -⟩ := sound.endOwners _ heldSource
  obtain ⟨other, otherOwned, otherLeads, -⟩ := sound.endOwners _ heldTarget
  rw [sound.coherent.ends.opposite_source holds] at leads
  rw [sound.coherent.ends.opposite_target holds] at otherLeads
  rw [DomainModel.sourceEnd, DomainModel.targetEnd, (made.association known).source,
    (made.association known).target, source.owner owner owned, target.target owner leads,
    target.owner other otherOwned, source.target other otherLeads, source.association,
    target.association, (sound.coherent.ends.association_eq_iff holds heldSource).mpr (.inl rfl),
    (sound.coherent.ends.association_eq_iff holds heldTarget).mpr (.inr rfl)]
  exact ⟨rfl, rfl, rfl, rfl⟩

/-- Every foreign key is typed, because its relationship is: it compares properties of the two
classes, and each end is owned by the class that the other leads to. -/
theorem keyTyped (assembled : model.AssembledFrom units recorded fragments workspace)
    {key : Model.ForeignKey} (member : key ∈ model.parts.foreignKeys) : model.KeyTyped key := by
  obtain ⟨-, -, sound, covers, made, -⟩ := id assembled
  rw [made.foreignKeys_eq] at member
  obtain ⟨index, known, isKey⟩ := List.mem_flatMap.mp member
  have holds := covers.associations.mem_iff.mp known
  obtain ⟨written, isWritten, same⟩ := List.mem_map.mp isKey
  have required : (model.parts.associationEnd key.associationEnd).multiplicity = .oneToOne →
      (model.parts.property key.foreignKey).optional = false := by
    subst same
    obtain ⟨heldEnd, heldKey, -⟩ := sound.foreignKeys index holds written isWritten
    rw [Assembly.keyPosition, (made.associationEnd (covers.associationEnds.mem_iff.mpr
      heldEnd)).multiplicity, (made.property (covers.properties.mem_iff.mpr heldKey)).optional]
    exact assembled.required_of_oneToOne holds isWritten
  rw [← assembled.joinKeys_position holds] at isKey
  generalize isId : position workspace.allocation.associations index = id
    at isKey
  have placed : model.KeysPlaced id := isId ▸ assembled.keysPlaced holds
  obtain ⟨ofSource, ofTarget, sourceOwner, targetOwner⟩ := assembled.ends_crossed holds isId
  have relationship : model.CriteriaTyped (.klass (model.sourceEnd id).target)
      (model.parts.association id).criteria :=
    assembled.relationship_typed holds (congrArg model.parts.association isId)
  cases join : (model.parts.association id).join with
  | predicate =>
    rw [placed.predicate join] at isKey
    cases isKey
  | direct =>
    obtain ⟨pairs, joins⟩ := placed.direct_iff.mp join
    have typed := Model.Joins.typed joins relationship
    by_cases sourceOne : (model.sourceEnd id).multiplicity.isToOne
    · rw [placed.onSource sourceOne pairs joins] at isKey
      obtain ⟨pair, isPair, rfl⟩ := List.mem_map.mp isKey
      refine ⟨sourceOne, ?_, ?_, required, (typed pair isPair).1⟩
      · exact (congrArg (fun id => (model.parts.association id).join) ofSource).trans join
      · exact (congrArg (fun klass => pair.2 ∈ model.properties (.klass klass)) sourceOwner).mpr
          (typed pair isPair).2
    · by_cases targetOne : (model.targetEnd id).multiplicity.isToOne
      · rw [placed.onTarget sourceOne targetOne pairs joins] at isKey
        obtain ⟨pair, isPair, rfl⟩ := List.mem_map.mp isKey
        refine ⟨targetOne, ?_, ?_, required, (typed pair isPair).2⟩
        · exact (congrArg (fun id => (model.parts.association id).join) ofTarget).trans join
        · exact (congrArg (fun klass => pair.1 ∈ model.properties (.klass klass)) targetOwner).mpr
            (typed pair isPair).1
      · rw [placed.toMany sourceOne targetOne] at isKey
        cases isKey

end DomainModel.AssembledFrom

/-- The foreign keys of every model that is compiled are those that its direct joins need. -/
theorem compile_foreignKeys {trees : List (String × Syntax.SourceTree)}
    {configuration : Configuration} {compilation : Compilation} {model : DomainModel}
    (compiled : compile trees configuration = .ok compilation)
    (found : compilation.model = some model) :
    (∀ key ∈ model.parts.foreignKeys, model.KeyTyped key) ∧
      ∀ association : Model.AssociationId, model.parts.Has association →
        model.KeysPlaced association := by
  obtain ⟨workspace, recorded, fragments, assembled, -⟩ :=
    exists_assembledFrom_of_compile compiled found
  refine ⟨fun key member => assembled.keyTyped member, fun association has => ?_⟩
  obtain ⟨index, known, rfl⟩ := assembled.made.exists_association assembled.covers has
  exact assembled.keysPlaced (assembled.covers.associations.mem_iff.mp known)

/-- The association of the documents has one foreign key, on its source end. -/
theorem compile_foreignKeys_documents : ∃ compilation model,
    compile Sample.trees {} = .ok compilation ∧ compilation.model = some model ∧
      model.parts.foreignKeys = [⟨⟨0⟩, ⟨1⟩, ⟨0⟩⟩] ∧ (∀ key ∈ model.parts.foreignKeys,
        model.KeyTyped key) ∧
      ∀ association : Model.AssociationId, model.parts.Has association →
        model.KeysPlaced association := by
  obtain ⟨compilation, model, compiled, found, -, -, -, keys⟩ := Sample.compiles
  exact ⟨compilation, model, compiled, found, keys, compile_foreignKeys compiled found⟩

end DomainLang
