import DomainLang.Proofs.Compilation
import Mathlib.Data.List.GetD

/-!
# The superclasses of a model

The superclasses of a model are those of the program that it was assembled of. So subclasses
stay subclasses, and a cycle of superclasses would be a cycle of the program, which is an error.
A chain of superclasses therefore never stops because of a repetition: its last class has no
superclass.
-/

namespace DomainLang

open Relation (ReflTransGen TransGen)

namespace DomainModel

variable {model : DomainModel}

/-- The first class has the second as its superclass. -/
def HasSuperclass (model : DomainModel) (klass parent : Model.ClassId) : Prop :=
  (model.parts.klass klass).superclass = some parent

theorem nodup_ids {kind : RecordKind} {α : Type} (records : List α) :
    (Model.Parts.ids records : List (Model.Id kind)).Nodup :=
  List.nodup_range.map fun _ _ same => Model.Id.mk.inj same

/-- An id without a class has no superclass. -/
theorem superclass_of_not_mem (id : Model.ClassId)
    (absent : id ∉ Model.Parts.ids model.parts.classes) :
    (model.parts.klass id).superclass = none := by
  have outside : model.parts.classes.length ≤ id.value :=
    Nat.le_of_not_lt fun inside => absent (List.mem_map.mpr ⟨_, List.mem_range.mpr inside, rfl⟩)
  rw [Model.Parts.klass, List.getD_eq_default _ _ outside]
  rfl

theorem length_ids_lt (model : DomainModel) :
    (Model.Parts.ids model.parts.classes : List Model.ClassId).length <
      model.parts.classes.length + 2 := by
  simp [Model.Parts.ids]

theorem isSubclassOf_iff {klass ancestor : Model.ClassId} :
    model.isSubclassOf klass ancestor ↔ ReflTransGen model.HasSuperclass klass ancestor := by
  rw [isSubclassOf, Bool.or_eq_true, decide_eq_true_iff, decide_eq_true_iff]
  exact Graph.eq_or_mem_follow_next_iff (nodup_ids _) superclass_of_not_mem model.length_ids_lt

/-- Without cycles the chain of superclasses ends where there is none. -/
theorem superclass_getLast_superclassChain
    (acyclic : ∀ klass, ¬ TransGen model.HasSuperclass klass klass) (klass : Model.ClassId) :
    (model.parts.klass ((klass :: model.superclassChain klass).getLast
      (List.cons_ne_nil _ _))).superclass = none :=
  Graph.next_getLast_follow (nodup_ids _) superclass_of_not_mem model.length_ids_lt acyclic klass

end DomainModel

/-- A superclass has an id. -/
theorem Allocation.Covers.mem_classes_of_hasSuperclass {program : Program}
    {allocation : Allocation} (covers : allocation.Covers program) (sound : program.Sound)
    {klass parent : ClassIndex} (has : klass ∈ allocation.classes)
    (named : program.HasSuperclass klass parent) : parent ∈ allocation.classes := by
  rw [Program.HasSuperclass, Program.superclass?, Resolved.Class.superclass?,
    Option.bind_eq_some_iff] at named
  obtain ⟨found, stored, resolved⟩ := named
  obtain ⟨_, rfl, holds⟩ := sound.superclasses klass (covers.classes.mem_iff.mp has) found stored
  cases resolved
  exact covers.classes.mem_iff.mpr holds

namespace Assembly.Made

open Allocation (position)

variable {program : Program} {allocation : Allocation} {model : DomainModel}
  (made : Made program allocation model.parts) (covers : allocation.Covers program)
  (sound : program.Sound)
include made covers sound

/-- Subclasses stay subclasses. -/
theorem isSubclassOf_position {klass ancestor : ClassIndex} (has : klass ∈ allocation.classes)
    (below : program.isSubclassOf klass ancestor) :
    model.isSubclassOf (position allocation.classes klass)
      (position allocation.classes ancestor) := by
  rw [Program.isSubclassOf_iff] at below
  rw [DomainModel.isSubclassOf_iff]
  induction below using ReflTransGen.head_induction_on with
  | refl => exact .refl
  | head named _ ih =>
    refine .head ?_ (ih (covers.mem_classes_of_hasSuperclass sound has named))
    rw [DomainModel.HasSuperclass, (made.klass has).superclass]
    exact congrArg _ named

/-- Every path along superclasses of the model is one of the program. -/
theorem exists_ancestor {klass : ClassIndex} {id : Model.ClassId}
    (has : klass ∈ allocation.classes)
    (reaches : TransGen model.HasSuperclass (position allocation.classes klass) id) :
    ∃ above ∈ allocation.classes, position allocation.classes above = id ∧
      TransGen program.HasSuperclass klass above := by
  have step {klass : ClassIndex} {id : Model.ClassId} (has : klass ∈ allocation.classes)
      (named : model.HasSuperclass (position allocation.classes klass) id) :
      ∃ above ∈ allocation.classes, position allocation.classes above = id ∧
        program.HasSuperclass klass above := by
    rw [DomainModel.HasSuperclass, (made.klass has).superclass, Option.map_eq_some_iff] at named
    obtain ⟨above, found, same⟩ := named
    exact ⟨above, covers.mem_classes_of_hasSuperclass sound has found, same, found⟩
  induction reaches with
  | single named =>
    obtain ⟨above, known, same, found⟩ := step has named
    exact ⟨above, known, same, .single found⟩
  | tail _ named ih =>
    obtain ⟨between, known, rfl, onward⟩ := ih
    obtain ⟨above, isAbove, same, found⟩ := step known named
    exact ⟨above, isAbove, same, onward.tail found⟩

/-- A program without cycles has a model without cycles. -/
theorem superclasses_acyclic (acyclic : program.Acyclic) (id : Model.ClassId) :
    ¬ TransGen model.HasSuperclass id id := by
  intro cycle
  have isClass : id ∈ Model.Parts.ids model.parts.classes := by
    obtain ⟨parent, named, -⟩ := TransGen.head'_iff.mp cycle
    by_contra absent
    cases (DomainModel.superclass_of_not_mem id absent).symm.trans named
  have inside : id.value < allocation.classes.length := by
    obtain ⟨value, below, rfl⟩ := List.mem_map.mp isClass
    rw [← Allocation.length_made made.classes]
    exact List.mem_range.mp below
  obtain ⟨klass, has, rfl⟩ := Allocation.exists_position covers.classes.nodup inside
  obtain ⟨above, -, same, reaches⟩ := made.exists_ancestor covers sound has cycle
  cases (Allocation.position_inj has).mp same.symm
  exact acyclic.superclasses klass reaches

end Assembly.Made

/-- Cycles are reported exactly: a class that reaches itself along superclasses and an interface
that reaches itself along interfaces are reported once each, and nothing else. Without such a
report nothing inherits from itself, and in a model every chain of superclasses ends in a class
without one. -/
theorem cycles_reported_exactly :
    (∀ options units after, Phase.analyze.perform { options, units } = (.ok (), after) →
      after.ReportsCycles after.report.diagnostics ∧
        ((∀ diagnostic ∈ after.report.diagnostics, diagnostic.kind ≠ .circularInheritance) →
          after.program.Acyclic)) ∧
    ∀ trees configuration compilation model, compile trees configuration = .ok compilation →
      compilation.model = some model → ∀ klass : Model.ClassId,
        (model.parts.klass ((klass :: model.superclassChain klass).getLast
          (List.cons_ne_nil _ _))).superclass = none := by
  constructor
  · intro options units after returns
    obtain ⟨analysed, recorded, fragments, known, rfl⟩ := Phase.returns_analyze returns
    have reports : analysed.reportAll.ReportsCycles analysed.reportAll.report.diagnostics := by
      rw [Workspace.diagnostics_reportAll known.report]
      exact Workspace.reportsCycles known.declarations
    exact ⟨reports, reports.acyclic⟩
  · intro trees configuration compilation model compiled found
    obtain ⟨workspace, recorded, fragments, assembled, -, -⟩ :=
      exists_assembledFrom_of_compile compiled found
    exact DomainModel.superclass_getLast_superclassChain
      (assembled.made.superclasses_acyclic assembled.covers assembled.sound
        (assembled.free.acyclic assembled.declarations))

namespace Sample

open Syntax

/-- An interface that names others. -/
def interface (name : String) (interfaces : List String) : Declaration :=
  .interface {
    toNode := .bare
    name := .bare name
    interfaces := interfaces.map Identifier.bare
    modifiers := []
    members := [] }

/-- Two classes and two interfaces that inherit from each other, and a class and an interface
that lead there. -/
def loops : SourceTree where
  package := ⟨.bare, "com.example"⟩
  elements := [
    interface "Left" ["Right"], interface "Right" ["Left"], interface "Into" ["Left"],
    klass "Egg" (some "Hen") [] [number "id" false [.key]], klass "Hen" (some "Egg") [] [],
    klass "Chick" (some "Hen") [] []]

/-- A class that extends another one. -/
def line : SourceTree where
  package := ⟨.bare, "com.example"⟩
  elements := [klass "Bird" none [] [number "id" false [.key]], klass "Hen" (some "Bird") [] []]

end Sample

/-- Of six classifiers four are reported. Without a cycle there is no report, and the chain of
the second class ends in the first one. -/
theorem cycles_reported_exactly_loops :
    (∃ after, Phase.analyze.perform
        { options := {}, units := [.ofTree ⟨0⟩ "loops" Sample.loops] } = (.ok (), after) ∧
      (after.report.diagnostics.filter (·.kind = .circularInheritance)).length = 4 ∧
      after.ReportsCycles after.report.diagnostics) ∧
    (∃ after, Phase.analyze.perform
        { options := {}, units := [.ofTree ⟨0⟩ "line" Sample.line] } = (.ok (), after) ∧
      after.program.HasSuperclass ⟨1⟩ ⟨0⟩ ∧ after.program.Acyclic) ∧
    ∃ compilation model, compile [("line", Sample.line)] {} = .ok compilation ∧
      compilation.model = some model ∧ model.superclassChain ⟨1⟩ = [⟨0⟩] ∧
      (model.parts.klass ⟨0⟩).superclass = none := by
  refine ⟨?_, ?_, ?_⟩
  · have seen : (Phase.analyze.perform
        { options := {}, units := [.ofTree ⟨0⟩ "loops" Sample.loops] }).map Except.toOption
          (fun after => (after.report.diagnostics.filter (·.kind = .circularInheritance)).length) =
        (some (), 4) := by cbv
    obtain ⟨after, returns, seen⟩ := Phase.exists_returns_of_map_eq seen
    exact ⟨after, returns, seen, (cycles_reported_exactly.1 _ _ _ returns).1⟩
  · have seen : (Phase.analyze.perform
        { options := {}, units := [.ofTree ⟨0⟩ "line" Sample.line] }).map Except.toOption
          (fun after => (after.report.diagnostics, after.program.superclass? ⟨1⟩)) =
        (some (), [], some ⟨0⟩) := by cbv
    obtain ⟨after, returns, seen⟩ := Phase.exists_returns_of_map_eq seen
    simp only [Prod.mk.injEq] at seen
    obtain ⟨silent, named⟩ := seen
    refine ⟨after, returns, named, (cycles_reported_exactly.1 _ _ _ returns).2 ?_⟩
    simp [silent]
  · have seen : ((compile [("line", Sample.line)] {}).toOption.bind (·.model)).map
        (fun model => model.superclassChain ⟨1⟩) = some [⟨0⟩] := by cbv
    obtain ⟨compilation, model, compiled, found, chain⟩ := exists_model_of_map_eq_some seen
    refine ⟨compilation, model, compiled, found, chain, ?_⟩
    simpa [chain] using cycles_reported_exactly.2 _ _ _ _ compiled found ⟨1⟩

end DomainLang
