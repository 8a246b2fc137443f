import DomainLang.Proofs.Lookups

/-!
# Programs without errors

Findings are quiet when none of them is an error. Quiet findings of a list of rules are quiet
findings of each rule, so that what a rule demands can be read off one rule at a time. Here
this is done for what must be unique: names of declarations, of members of a classifier and of
parameters of a url. No lookup by such a name is ambiguous then.
-/

namespace DomainLang

open Resolved

variable {program : Program} {classifier : ClassifierIndex}

/-- No finding is an error. -/
def Quiet (findings : List Finding) : Prop :=
  ∀ finding ∈ findings, finding.problem.kind.isWarning = true

namespace Quiet

@[simp]
theorem nil : Quiet [] := by
  rintro _ ⟨⟩

@[simp]
theorem append {first second : List Finding} :
    Quiet (first ++ second) ↔ Quiet first ∧ Quiet second := by
  simp only [Quiet, List.mem_append, or_imp, forall_and]

@[simp]
theorem flatMap {α : Type} {items : List α} {rule : α → List Finding} :
    Quiet (items.flatMap rule) ↔ ∀ item ∈ items, Quiet (rule item) := by
  simp only [Quiet, List.mem_flatMap]
  exact ⟨fun quiet item member finding found => quiet finding ⟨item, member, found⟩,
    fun quiet finding ⟨item, member, found⟩ => quiet item member finding found⟩

@[simp]
theorem singleton {finding : Finding} :
    Quiet [finding] ↔ finding.problem.kind.isWarning = true := by
  simp [Quiet]

/-- Errors reported for all items of a list are quiet when there is no item. -/
theorem map_eq_nil {α : Type} {items : List α} {report : α → Finding}
    (errors : ∀ item, (report item).problem.kind.isWarning = false)
    (quiet : Quiet (items.map report)) : items = [] := by
  rw [List.eq_nil_iff_forall_not_mem]
  intro item member
  have warning := quiet (report item) (List.mem_map_of_mem member)
  rw [errors item] at warning
  cases warning

/-- When repetitions are errors there are none. -/
theorem nodup_of_repeated {α κ : Type} [DecidableEq κ] {key : α → κ} {items : List α}
    {report : α → Finding} (errors : ∀ item, (report item).problem.kind.isWarning = false)
    (quiet : Quiet ((repeated key items).map report)) : (items.map key).Nodup :=
  repeated_eq_nil_iff.mp (quiet.map_eq_nil errors)

end Quiet

/-- The analysis of a program has found no error. -/
def Workspace.ErrorFree (workspace : Workspace) : Prop :=
  Quiet workspace.findings

/-- A report that was empty has the diagnostics of the findings. -/
theorem Workspace.diagnostics_reportAll {workspace : Workspace} (blank : workspace.report = {}) :
    workspace.reportAll.report.diagnostics = workspace.findings.map Finding.diagnostic := by
  simp [reportAll, reportFindings, Report.addFindings, blank]

/-- Whether there are errors is seen in the report. -/
theorem Workspace.errorFree_iff {workspace : Workspace} (blank : workspace.report = {}) :
    workspace.ErrorFree ↔ workspace.reportAll.report.hasErrors = false := by
  have error (finding : Finding) :
      ¬ finding.diagnostic.isError = true ↔ finding.problem.kind.isWarning = true := by
    simp [Diagnostic.isError, Finding.diagnostic, Diagnostic.ofKind, Severity.ofKind]
  simp only [ErrorFree, Quiet, reportAll, reportFindings, Report.addFindings, blank,
    Report.hasErrors, List.nil_append, List.any_map, List.any_eq_false, Function.comp_apply, error]

namespace Program

theorem mem_topLevel {index : TopLevelIndex} :
    index ∈ program.topLevel ↔ program.HoldsTopLevel index := by
  rw [topLevel, List.mem_mergeSort, mem_topLevelByKind]

theorem mem_classifiers :
    classifier ∈ program.classifiers ↔ program.HoldsClassifier classifier := by
  simp only [classifiers, List.mem_filterMap, mem_topLevel]
  constructor
  · rintro ⟨index, holds, same⟩
    cases index with
    | interface _ | klass _ =>
      cases same
      exact holds
    | enumeration _ | association _ | projection _ | serviceGroup _ => cases same
  · intro holds
    cases classifier with
    | interface index => exact ⟨.interface index, holds, rfl⟩
    | klass index => exact ⟨.klass index, holds, rfl⟩

theorem nodup_topLevel (program : Program) : program.topLevel.Nodup :=
  (List.mergeSort_perm ..).nodup_iff.mpr program.nodup_topLevelByKind

theorem nodup_classifiers (program : Program) : program.classifiers.Nodup := by
  refine program.nodup_topLevel.filterMap ?_
  intro first second classifier isFirst isSecond
  cases first <;> cases second <;> cases isFirst <;> cases isSecond <;> rfl

/-- No two declarations have one name. -/
def NamedApart (program : Program) : Prop :=
  ∀ first second, program.HoldsTopLevel first → program.HoldsTopLevel second →
    program.nameOf first = program.nameOf second → first = second

end Program

/-- Without repetitions of names there is no ambiguity. -/
theorem Program.namedApart_of_quiet {workspace : Workspace}
    (names : workspace.registry.Names workspace.program)
    (quiet : Quiet (Uniqueness.topLevelNames workspace)) : workspace.program.NamedApart := by
  intro first second holdsFirst holdsSecond same
  have clear : workspace.registry.resolve (workspace.program.nameOf first) ≠ .ambiguous := by
    intro ambiguous
    have none := quiet.map_eq_nil fun _ => rfl
    rw [List.filter_eq_nil_iff] at none
    exact none first (Program.mem_topLevel.mpr holdsFirst)
      (Resolution.isAmbiguous_iff.mpr ambiguous)
  rw [names.topLevel] at clear
  exact Resolution.eq_of_ofMatches_ne_ambiguous clear
    (Program.mem_named.mpr ⟨holdsFirst, rfl⟩) (Program.mem_named.mpr ⟨holdsSecond, same.symm⟩)

/-- A table is never ambiguous when its records are named apart. -/
theorem SymbolTable.Names.find_ne_ambiguous {kind : RecordKind} {α : Type} [Inhabited α]
    {table : SymbolTable (Index kind)} {arena : Arena kind α} {header : α → Header}
    (names : table.Names arena header)
    (apart : ∀ first second, arena.Holds first → arena.Holds second →
      (header (arena.get first)).name.name = (header (arena.get second)).name.name →
        first = second) (name : String) : table.find name ≠ .ambiguous := by
  rw [names name]
  refine Resolution.ofMatches_ne_ambiguous (arena.nodup_select _) ?_
  intro first isFirst second isSecond
  simp only [Arena.mem_select, decide_eq_true_iff] at isFirst isSecond
  exact apart first second isFirst.1 isSecond.1 (isFirst.2.trans isSecond.2.symm)

namespace Registry.Names

variable {registry : Registry} {program : Program}

theorem enumerations_ne_ambiguous (names : registry.Names program) (apart : program.NamedApart)
    (name : String) : registry.enumerations.find name ≠ .ambiguous :=
  names.enumerations.find_ne_ambiguous (fun first second holdsFirst holdsSecond same =>
    TopLevelIndex.enumeration.inj
      (apart (.enumeration first) (.enumeration second) holdsFirst holdsSecond same)) name

theorem interfaces_ne_ambiguous (names : registry.Names program) (apart : program.NamedApart)
    (name : String) : registry.interfaces.find name ≠ .ambiguous :=
  names.interfaces.find_ne_ambiguous (fun first second holdsFirst holdsSecond same =>
    TopLevelIndex.interface.inj
      (apart (.interface first) (.interface second) holdsFirst holdsSecond same)) name

theorem classes_ne_ambiguous (names : registry.Names program) (apart : program.NamedApart)
    (name : String) : registry.classes.find name ≠ .ambiguous :=
  names.classes.find_ne_ambiguous (fun first second holdsFirst holdsSecond same =>
    TopLevelIndex.klass.inj
      (apart (.klass first) (.klass second) holdsFirst holdsSecond same)) name

theorem projections_ne_ambiguous (names : registry.Names program) (apart : program.NamedApart)
    (name : String) : registry.projections.find name ≠ .ambiguous :=
  names.projections.find_ne_ambiguous (fun first second holdsFirst holdsSecond same =>
    TopLevelIndex.projection.inj
      (apart (.projection first) (.projection second) holdsFirst holdsSecond same)) name

/-- No name is that of a class and of an interface. -/
theorem findClassifier_ne_ambiguous (names : registry.Names program) (apart : program.NamedApart)
    (name : String) : registry.findClassifier name ≠ .ambiguous := by
  unfold findClassifier
  split
  · simpa using names.interfaces_ne_ambiguous apart name
  · simpa using names.classes_ne_ambiguous apart name
  · next notClass notInterface =>
    obtain ⟨klass, klassFound⟩ := Resolution.exists_resolved notClass
      (names.classes_ne_ambiguous apart name)
    obtain ⟨interface, interfaceFound⟩ := Resolution.exists_resolved notInterface
      (names.interfaces_ne_ambiguous apart name)
    have isClass := names.classes.of_find klassFound
    have isInterface := names.interfaces.of_find interfaceFound
    have equal := apart (.klass klass) (.interface interface) isClass.1 isInterface.1
      (isClass.2.trans isInterface.2.symm)
    cases equal

end Registry.Names

namespace Program

/-- No two members of a classifier have one name. -/
structure MembersApart (program : Program) (classifier : ClassifierIndex) : Prop where
  properties : ((program.classifier classifier).properties.map program.propertyName).Nodup
  endSignatures :
    ((program.classifier classifier).endSignatures.map program.signatureName).Nodup
  ends : ∀ klass, classifier = .klass klass →
    ((program.classes.get klass).associationEnds.map program.endName).Nodup

theorem membersApart_of_quiet (quiet : Quiet (Uniqueness.members program classifier)) :
    program.MembersApart classifier := by
  have distinct := quiet.nodup_of_repeated fun _ => rfl
  simp only [Uniqueness.memberNames, List.map_append, List.map_map, List.nodup_append] at distinct
  refine ⟨distinct.1.1, distinct.1.2.1, ?_⟩
  rintro klass rfl
  have ends := distinct.2.1
  simp only [List.map_map] at ends
  exact ends

/-- A classifier without a record has no members. -/
theorem membersApart_of_not_holds (absent : ¬ program.HoldsClassifier classifier) :
    program.MembersApart classifier where
  properties := by
    rw [classifier_of_not_holds absent]
    exact List.nodup_nil
  endSignatures := by
    rw [classifier_of_not_holds absent]
    exact List.nodup_nil
  ends klass same := by
    rw [same] at absent
    rw [Arena.get_of_not_holds absent]
    exact List.nodup_nil

end Program
end DomainLang
