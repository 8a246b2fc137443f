import DomainLang.Proofs.Declaration.TopLevel

/-!
# Declaring all source files

Declarations are visited unit by unit, each unit inside a scope of its own.
`Phase.VisitInvariant` treats such a visit as one loop over the list of all declarations,
`declarationsOf`. From it follows what is known once every top-level declaration has its
record: `Workspace.Declared`.
-/

namespace DomainLang

open Resolved

variable {unit : CompilationUnit} {before : Workspace}

/-- A declaration together with the unit it is written in. -/
abbrev SourceDeclaration := CompilationUnit × Syntax.Declaration

/-- The declarations written in a unit. -/
def CompilationUnit.elements (unit : CompilationUnit) : List Syntax.Declaration :=
  (unit.tree?.map (·.elements)).getD []

/-- The declarations of units, in the order in which they are visited. -/
def declarationsOf (units : List CompilationUnit) : List SourceDeclaration :=
  units.flatMap fun unit => unit.elements.map (unit, ·)

namespace Phase

theorem eachDeclaration_eq (visit : CompilationUnit → Syntax.Declaration → Phase Unit) :
    eachDeclaration visit = get >>= fun workspace : Workspace =>
      workspace.units.forM fun unit =>
        inFrame (.unit unit.id) (unit.elements.forM (visit unit)) := by
  unfold eachDeclaration
  congr 1
  funext workspace
  congr 1
  funext unit
  congr 1
  cases written : unit.tree? <;> simp [CompilationUnit.elements, written]

/-- An invariant of visits to the declarations of some units: it does not depend on the open
scopes, and every visit keeps it and leaves the open scopes alone. -/
structure VisitInvariant (visit : CompilationUnit → Syntax.Declaration → Phase Unit)
    (units : List CompilationUnit) (motive : List SourceDeclaration → Workspace → Prop) : Prop where
  rewalk : ∀ visited workspace walk, motive visited workspace →
    motive visited { workspace with walk }
  next : ∀ visited unit element rest current following,
    declarationsOf units = visited ++ (unit, element) :: rest → motive visited current →
    (visit unit element).Returns current () following →
    motive (visited ++ [(unit, element)]) following ∧ following.walk = current.walk

namespace VisitInvariant

variable {visit : CompilationUnit → Syntax.Declaration → Phase Unit} {units : List CompilationUnit}
  {motive : List SourceDeclaration → Workspace → Prop} {earlier later : List CompilationUnit}

/-- The part of all declarations that one unit contributes. -/
theorem split_unit (split : units = earlier ++ unit :: later)
    {seen remaining : List Syntax.Declaration} {element : Syntax.Declaration}
    (elements : unit.elements = seen ++ element :: remaining) :
    declarationsOf units = (declarationsOf earlier ++ seen.map (unit, ·)) ++
      (unit, element) :: (remaining.map (unit, ·) ++ declarationsOf later) := by
  simp [split, declarationsOf, elements]

/-- Visits to one unit. -/
theorem visitUnit (invariant : VisitInvariant visit units motive)
    (split : units = earlier ++ unit :: later) {current inner : Workspace}
    (holds : motive (declarationsOf earlier) current)
    (run : (unit.elements.forM (visit unit)).Returns current () inner) :
    motive (declarationsOf (earlier ++ [unit])) inner ∧ inner.walk = current.walk := by
  have extended : declarationsOf (earlier ++ [unit]) =
      declarationsOf earlier ++ unit.elements.map (unit, ·) := by simp [declarationsOf]
  rw [extended]
  apply run.forM_induction fun seen state =>
    motive (declarationsOf earlier ++ seen.map (unit, ·)) state ∧ state.walk = current.walk
  · exact ⟨by simpa using holds, rfl⟩
  · intro seen element remaining state following elements ⟨kept, walk⟩ step
    obtain ⟨extendedMotive, sameWalk⟩ :=
      invariant.next _ unit element _ state following (split_unit split elements) kept step
    exact ⟨by simpa using extendedMotive, sameWalk.trans walk⟩

/-- Visits to one unit, inside its scope. -/
theorem visitFramed (invariant : VisitInvariant visit units motive)
    (split : units = earlier ++ unit :: later) {current following : Workspace}
    (holds : motive (declarationsOf earlier) current)
    (framed : (inFrame (.unit unit.id) (unit.elements.forM (visit unit))).Returns current ()
      following) :
    motive (declarationsOf (earlier ++ [unit])) following ∧ following.walk = current.walk := by
  have opened := invariant.rewalk _ _ ⟨.unit unit.id :: current.walk.frames⟩ holds
  obtain ⟨inner, run, rfl⟩ := framed.inFrame fun inner run =>
    (invariant.visitUnit split opened run).2
  exact ⟨invariant.rewalk _ _ _ (invariant.visitUnit split opened run).1, rfl⟩

/-- What every visit maintains holds after all visits. -/
theorem eachDeclaration {after : Workspace} (invariant : VisitInvariant visit before.units motive)
    (start : motive [] before) (returns : (eachDeclaration visit).Returns before () after) :
    motive (declarationsOf before.units) after ∧ after.walk = before.walk := by
  rw [eachDeclaration_eq, returns_get_bind] at returns
  apply returns.forM_induction fun visited current =>
    motive (declarationsOf visited) current ∧ current.walk = before.walk
  · exact ⟨start, rfl⟩
  · intro earlier unit later current following split ⟨holds, sameWalk⟩ framed
    obtain ⟨kept, walk⟩ := invariant.visitFramed split holds framed
    exact ⟨kept, walk.trans sameWalk⟩

/-- A visit of all declarations succeeds when each visit does, with the scope of its unit
as the only open one. -/
theorem succeeds_eachDeclaration (invariant : VisitInvariant visit before.units motive)
    (start : motive [] before) (closed : before.walk = {})
    (succeeds : ∀ visited unit element rest current,
      declarationsOf before.units = visited ++ (unit, element) :: rest → motive visited current →
      current.walk = ⟨[.unit unit.id]⟩ → (visit unit element).Succeeds current) :
    (Phase.eachDeclaration visit).Succeeds before := by
  rw [eachDeclaration_eq, succeeds_get_bind]
  apply succeeds_forM fun visited current =>
    motive (declarationsOf visited) current ∧ current.walk = before.walk
  · exact ⟨start, rfl⟩
  · intro earlier unit later current split ⟨holds, walk⟩
    have frames : current.walk.frames = [] := by rw [walk, closed]
    have opened := invariant.rewalk _ _ ⟨.unit unit.id :: current.walk.frames⟩ holds
    apply succeeds_inFrame
    · simp [frames]
    · apply succeeds_forM fun seen state =>
        motive (declarationsOf earlier ++ seen.map (unit, ·)) state ∧
          state.walk = ⟨.unit unit.id :: current.walk.frames⟩
      · exact ⟨by simpa using opened, rfl⟩
      · intro seen element remaining state elements ⟨kept, sameWalk⟩
        apply succeeds _ unit element _ state (split_unit split elements) kept
        rw [sameWalk, frames]
      · intro seen element remaining state following elements ⟨kept, sameWalk⟩ step
        obtain ⟨extended, stepWalk⟩ :=
          invariant.next _ unit element _ state following (split_unit split elements) kept step
        exact ⟨by simpa using extended, stepWalk.trans sameWalk⟩
    · intro result inner run
      exact (invariant.visitUnit split opened run).2
  · intro earlier unit later current following split ⟨holds, sameWalk⟩ framed
    obtain ⟨kept, walk⟩ := invariant.visitFramed split holds framed
    exact ⟨kept, walk.trans sameWalk⟩

end VisitInvariant

section Element

variable {unit : CompilationUnit} {element : Syntax.Declaration} {before after : Workspace}

@[simp]
theorem returns_drawOrdinal {ordinal : Nat} :
    drawOrdinal.Returns before ordinal after ↔
      ordinal = before.registry.nextOrdinal ∧
        after = { before with
          registry := { before.registry with
            nextOrdinal := before.registry.nextOrdinal + 1 } } := by
  simp only [drawOrdinal, returns_get_bind, Registry.drawOrdinal]
  simp only [returns_bind, returns_modify, returns_pure]
  constructor
  · rintro ⟨_, _, rfl, rfl, rfl⟩
    exact ⟨rfl, rfl⟩
  · rintro ⟨rfl, rfl⟩
    exact ⟨(), _, rfl, rfl, rfl⟩

theorem grows_drawOrdinal {ordinal : Nat} (returns : drawOrdinal.Returns before ordinal after) :
    before.Grows [] after := by
  obtain ⟨-, rfl⟩ := returns_drawOrdinal.mp returns
  exact ⟨rfl, ⟨[], rfl, rfl⟩, .refl _, id⟩

/-- A name is registered exactly when its context is new. -/
theorem returns_register {name : String} {index : TopLevelIndex} {context : ContextKey} :
    (updateRegistry (·.register name index context)).Returns before () after ↔
      context ∉ before.registry.keys ∧
        after = { before with
          registry := { before.registry with
            contexts := (context, .topLevel index) :: before.registry.contexts }.registerName
              name index } := by
  rw [returns_updateRegistry]
  have known : (before.registry.contexts.any (·.1 = context)) = true ↔
      context ∈ before.registry.keys := by simp [Registry.keys]
  by_cases registered : context ∈ before.registry.keys
  · simp [Registry.register, Registry.registerContext, known.mpr registered, registered]
  · have new : ¬ (before.registry.contexts.any (·.1 = context)) = true := fun found =>
      registered (known.mp found)
    simp [Registry.register, Registry.registerContext, new, registered]

@[simp]
theorem contexts_registerName (registry : Registry) (name : String) (index : TopLevelIndex) :
    (registry.registerName name index).contexts = registry.contexts := by
  cases index <;> rfl

@[simp]
theorem nextOrdinal_registerName (registry : Registry) (name : String) (index : TopLevelIndex) :
    (registry.registerName name index).nextOrdinal = registry.nextOrdinal := by
  cases index <;> rfl

/-- The step that makes the record of a declaration. -/
def declareRecord (unit : CompilationUnit) (header : Header) :
    Syntax.Declaration → Phase TopLevelIndex
  | .enumeration declaration => declareEnumeration header declaration
  | .interface declaration => declareInterface header declaration
  | .klass declaration => declareClass header declaration
  | .association declaration => declareAssociation unit header declaration
  | .projection declaration => declareProjection header declaration
  | .serviceGroup declaration => declareServiceGroup unit header declaration

theorem declareElement_eq (unit : CompilationUnit) (element : Syntax.Declaration) :
    declareElement unit element = drawOrdinal >>= fun ordinal =>
      declareRecord unit (.ofElement unit ordinal element) element >>= fun index =>
        updateRegistry (·.register element.name.name index (unit.context element.node.id)) := by
  cases element <;> rfl

theorem returns_declareRecord {header : Header} {index : TopLevelIndex}
    (returns : (declareRecord unit header element).Returns before index after)
    (coherent : before.program.Coherent none none) (inUnit : unit.id = header.unit) :
    DeclaresRecord unit header element index before after := by
  cases element with
  | enumeration declaration => exact returns_declareEnumeration coherent returns
  | interface declaration => exact returns_declareInterface coherent returns
  | klass declaration => exact returns_declareClass coherent returns
  | association declaration => exact returns_declareAssociation coherent inUnit returns
  | projection declaration => exact returns_declareProjection coherent returns
  | serviceGroup declaration => exact declaresRecord_serviceGroup coherent inUnit returns

theorem succeeds_declareRecord {header : Header} (coherent : before.program.Coherent none none)
    (inUnit : unit.id = header.unit)
    (fresh : before.registry.Fresh (element.innerIds.map unit.context)) :
    (declareRecord unit header element).Succeeds before := by
  cases element with
  | association declaration => exact succeeds_declareAssociation fresh
  | serviceGroup declaration => exact succeeds_declareServiceGroup coherent inUnit fresh
  | enumeration declaration | interface declaration | klass declaration
  | projection declaration =>
    simp only [declareRecord, declareEnumeration, declareInterface, declareClass,
      declareProjection, succeeds_get_bind, succeeds_modifyProgram_bind, succeeds_pure]

/-- What declaring an element does. -/
structure DeclaresElement (unit : CompilationUnit) (element : Syntax.Declaration)
    (index : TopLevelIndex) (before after : Workspace) : Prop where
  grows : before.Grows (element.recordIds.map unit.context) after
  coherent : after.program.Coherent none none
  names : after.registry.Names after.program
  ordinal : after.registry.nextOrdinal = before.registry.nextOrdinal + 1
  describes : after.program.Describes (.ofElement unit before.registry.nextOrdinal element)
    element index
  context : (unit.context element.node.id, .topLevel index) ∈ after.registry.contexts
  fresh : ¬ before.program.HoldsTopLevel index
  held : ∀ other, after.program.HoldsTopLevel other ↔
    before.program.HoldsTopLevel other ∨ other = index
  memberless : before.program.Memberless → after.program.Memberless

theorem returns_declareElement (coherent : before.program.Coherent none none)
    (names : before.registry.Names before.program)
    (returns : (declareElement unit element).Returns before () after) :
    ∃ index, DeclaresElement unit element index before after := by
  simp only [declareElement_eq, returns_bind] at returns
  obtain ⟨_, _, draws, index, declared, recorded, registers⟩ := returns
  have drawn := grows_drawOrdinal draws
  obtain ⟨rfl, rfl⟩ := returns_drawOrdinal.mp draws
  have record := returns_declareRecord recorded coherent rfl
  obtain ⟨new, rfl⟩ := returns_register.mp registers
  have registered : declared.Grows [unit.context element.node.id] { declared with
      registry := { declared.registry with
        contexts := (unit.context element.node.id, .topLevel index) ::
          declared.registry.contexts }.registerName element.name.name index } := by
    refine ⟨rfl, ⟨[(unit.context element.node.id, .topLevel index)], by simp, rfl⟩, .refl _, ?_⟩
    intro distinct
    rw [Registry.keys, contexts_registerName]
    exact List.nodup_cons.mpr ⟨new, distinct⟩
  refine ⟨index, ?_, record.coherent, ?_, ?_, record.describes, ?_, record.fresh, record.held,
    record.memberless⟩
  · rw [Syntax.Declaration.recordIds, List.map_append]
    exact (drawn.trans record.declares.toGrows).trans registered
  · rw [record.declares.registry]
    exact record.names _ { names with topLevel := names.topLevel }
  · rw [nextOrdinal_registerName, record.declares.registry]
  · simp

theorem succeeds_declareElement (coherent : before.program.Coherent none none)
    (fresh : before.registry.Fresh (element.recordIds.map unit.context)) :
    (declareElement unit element).Succeeds before := by
  rw [declareElement_eq]
  rw [Syntax.Declaration.recordIds, List.map_append] at fresh
  refine .bind ⟨_, _, returns_drawOrdinal.mpr ⟨rfl, rfl⟩⟩ fun ordinal numbered draws => ?_
  have drawn := grows_drawOrdinal draws
  obtain ⟨rfl, rfl⟩ := returns_drawOrdinal.mp draws
  have stillFresh := fresh.of_grows_nil drawn
  refine .bind (succeeds_declareRecord coherent rfl stillFresh.left)
    fun index declared recorded => ?_
  have record := returns_declareRecord recorded coherent rfl
  have last := stillFresh.right record.declares.toGrows
  exact ⟨(), _, returns_register.mpr ⟨last.new _ (by simp), rfl⟩⟩

end Element
end Phase

/-- A declaration together with the index of its record. -/
abbrev RecordedDeclaration := SourceDeclaration × TopLevelIndex

namespace Registry

/-- The top-level records are those of the declarations, in order, and the context of each
declaration leads to its record. -/
structure Records (registry : Registry) (program : Program)
    (recorded : List RecordedDeclaration) : Prop where
  all : (recorded.map Prod.snd).Perm program.topLevelByKind
  describes : ∀ ordinal entry, recorded[ordinal]? = some entry →
    program.Describes (.ofElement entry.1.1 ordinal entry.1.2) entry.1.2 entry.2
  contexts : ∀ entry ∈ recorded,
    (entry.1.1.context entry.1.2.node.id, .topLevel entry.2) ∈ registry.contexts

namespace Records

variable {registry later : Registry} {before after : Program} {recorded : List RecordedDeclaration}

theorem mono (records : registry.Records before recorded) (keeps : before.Keeps after)
    (same : before.SameTopLevel after) (more : registry.contexts ⊆ later.contexts) :
    later.Records after recorded where
  all := by
    rw [same.topLevelByKind_eq]
    exact records.all
  describes ordinal entry found := (records.describes ordinal entry found).of_keeps keeps
  contexts entry member := more (records.contexts entry member)

/-- No two declarations share a record. -/
theorem nodup (records : registry.Records before recorded) : (recorded.map Prod.snd).Nodup :=
  records.all.nodup_iff.mpr before.nodup_topLevelByKind

/-- Every declaration has a record. -/
theorem describes_mem (records : registry.Records before recorded) {entry : RecordedDeclaration}
    (member : entry ∈ recorded) :
    ∃ ordinal, before.Describes (.ofElement entry.1.1 ordinal entry.1.2) entry.1.2 entry.2 := by
  obtain ⟨ordinal, found⟩ := List.mem_iff_getElem?.mp member
  exact ⟨ordinal, records.describes ordinal entry found⟩

end Records
end Registry

/-- The contexts of the records that declarations get, members apart. -/
def recordKeys (declarations : List SourceDeclaration) : List ContextKey :=
  declarations.flatMap fun declaration =>
    declaration.2.recordIds.map declaration.1.context

/-- What is known when the given declarations have their records. -/
structure Registry.Declared (registry : Registry) (program : Program)
    (recorded : List RecordedDeclaration) : Prop where
  coherent : program.Coherent none none
  names : registry.Names program
  ordinal : registry.nextOrdinal = recorded.length
  records : registry.Records program recorded
  memberless : program.Memberless

namespace Registry.Declared

theorem empty : Registry.Declared {} {} [] where
  coherent := .empty
  names := ⟨fun _ => rfl, fun _ => rfl, fun _ => rfl, fun _ => rfl, fun _ => rfl, fun _ => rfl,
    fun _ => rfl⟩
  ordinal := rfl
  records := ⟨.refl _, by simp, by simp⟩
  memberless := ⟨rfl, rfl, fun _ => rfl, by rintro _ ⟨⟩, rfl⟩

/-- One more declaration gets its record. -/
theorem concat {after : Workspace} {recorded : List RecordedDeclaration}
    (declared : before.registry.Declared before.program recorded) {element : Syntax.Declaration}
    {index : TopLevelIndex} (step : Phase.DeclaresElement unit element index before after) :
    after.registry.Declared after.program (recorded ++ [((unit, element), index)]) where
  coherent := step.coherent
  names := step.names
  ordinal := by simp [step.ordinal, declared.ordinal]
  records := by
    have all := declared.records.all
    refine ⟨?_, ?_, ?_⟩
    · rw [List.map_append, List.perm_ext_iff_of_nodup _ after.program.nodup_topLevelByKind]
      · intro other
        rw [List.mem_append, all.mem_iff, Program.mem_topLevelByKind, Program.mem_topLevelByKind,
          step.held]
        simp
      · rw [List.nodup_append]
        refine ⟨declared.records.nodup, List.nodup_singleton _, ?_⟩
        rintro other member last isLast rfl
        rw [all.mem_iff, Program.mem_topLevelByKind, List.mem_singleton.mp isLast] at member
        exact step.fresh member
    · intro ordinal entry found
      rcases Nat.lt_trichotomy ordinal recorded.length with early | last | beyond
      · rw [List.getElem?_append_left early] at found
        exact (declared.records.describes ordinal entry found).of_keeps step.grows.keeps
      · subst last
        simp only [List.getElem?_concat_length, Option.some.injEq] at found
        subst found
        exact declared.ordinal ▸ step.describes
      · have none : (recorded ++ [((unit, element), index)])[ordinal]? = none :=
          List.getElem?_eq_none (by rw [List.length_append]; exact beyond)
        rw [none] at found
        cases found
    · intro entry member
      rcases List.mem_append.mp member with early | last
      · exact step.grows.contexts_subset (declared.records.contexts entry early)
      · rw [List.mem_singleton.mp last]
        exact step.context
  memberless := step.memberless declared.memberless

end Registry.Declared

namespace Phase

/-- Declaring one element after the other. -/
theorem visitInvariant_declareElement (start : Workspace) (units : List CompilationUnit) :
    VisitInvariant declareElement units fun visited current =>
      { start with walk := current.walk }.Grows (recordKeys visited) current ∧
        ∃ recorded : List RecordedDeclaration, recorded.map Prod.fst = visited ∧
          current.registry.Declared current.program recorded where
  rewalk _ _ walk := fun ⟨grows, declared⟩ => ⟨grows.rewalk walk, declared⟩
  next visited unit element _ current following _ := by
    rintro ⟨grows, recorded, rfl, declared⟩ returns
    obtain ⟨index, step⟩ := returns_declareElement declared.coherent declared.names returns
    have walk := step.grows.walk_eq
    refine ⟨⟨?_, _, by simp, declared.concat step⟩, walk⟩
    rw [walk]
    simpa [recordKeys] using grows.trans step.grows

/-- Nothing is declared at the start. -/
theorem declared_nothing (blank : before.program = {}) (unregistered : before.registry = {}) :
    before.Grows (recordKeys []) before ∧
      ∃ recorded : List RecordedDeclaration, recorded.map Prod.fst = [] ∧
        before.registry.Declared before.program recorded := by
  refine ⟨.refl before, [], rfl, ?_⟩
  rw [blank, unregistered]
  exact .empty

/-- All declarations of all units get their records. -/
theorem returns_declareUnits {after : Workspace} (blank : before.program = {})
    (unregistered : before.registry = {}) (returns : declareUnits.Returns before () after) :
    before.Grows (recordKeys (declarationsOf before.units)) after ∧
      ∃ recorded : List RecordedDeclaration, recorded.map Prod.fst = declarationsOf before.units ∧
        after.registry.Declared after.program recorded := by
  have start := declared_nothing blank unregistered
  obtain ⟨⟨grows, declared⟩, walk⟩ :=
    (visitInvariant_declareElement before before.units).eachDeclaration start returns
  exact ⟨by rwa [walk] at grows, declared⟩

/-- All declarations are declared when no two nodes that get records share their context. -/
theorem succeeds_declareUnits (blank : before.program = {}) (unregistered : before.registry = {})
    (closed : before.walk = {}) (distinct : (recordKeys (declarationsOf before.units)).Nodup) :
    declareUnits.Succeeds before := by
  have start := declared_nothing blank unregistered
  apply (visitInvariant_declareElement before before.units).succeeds_eachDeclaration start closed
  intro visited unit element rest current split ⟨grows, _, _, declared⟩ _
  have fresh : ({ before with walk := current.walk } : Workspace).registry.Fresh
      (recordKeys visited ++ (element.recordIds.map unit.context ++ recordKeys rest)) := by
    refine ⟨by simpa [split, recordKeys] using distinct, ?_⟩
    simp [unregistered, Registry.keys]
  exact succeeds_declareElement declared.coherent (fresh.right grows).left

end Phase
end DomainLang
