import DomainLang.Proofs.Assembly.Records
import DomainLang.Proofs.Assembly.Totality
import DomainLang.Proofs.Inference.Stages
import Mathlib

/-!
# Compiling never fails

Compiling ends with diagnostics and, exactly when none of them is an error, with a model. That
there is no other outcome rests on two facts. Contexts of nodes never clash, because nodes are
numbered apart; and a program that is assembled is sound, because the analysis reported no
error.

Mathlib is imported whole for the sample at the end. Its evaluation by `cbv` uses equations of
core functions such as `Char.isAlpha` and `ByteArray.push`, which no single file of Mathlib
imports; a narrower import would state them a second time here.
-/

namespace DomainLang

section Compilations

variable {compilation : Compilation} {options : Options} {model : DomainModel}
  {trees : List (String × Syntax.SourceTree)} {configuration : Configuration}

/-- The model of a compilation is there exactly when no diagnostic is an error. -/
def Compilation.Decided (compilation : Compilation) : Prop :=
  compilation.model.isSome ↔ ∀ diagnostic ∈ compilation.diagnostics, diagnostic.severity ≠ .error

/-- Sorting keeps all diagnostics. -/
theorem Report.hasErrors_eq_false_iff {report : Report} :
    report.hasErrors = false ↔ ∀ diagnostic ∈ report.sorted, diagnostic.severity ≠ .error := by
  simp [hasErrors, sorted, Diagnostic.isError]

/-- Warnings that count as errors take the model away. -/
theorem Compilation.Decided.promoteWarnings (decided : compilation.Decided) :
    compilation.promoteWarnings.Decided := by
  have promoted (diagnostic : Diagnostic) :
      (if diagnostic.severity = .warning then { diagnostic with severity := .error }
        else diagnostic).severity ≠ .error ↔
      diagnostic.severity ≠ .warning ∧ diagnostic.severity ≠ .error := by
    cases severity : diagnostic.severity <;> simp [severity]
  simp only [Decided, Compilation.promoteWarnings, List.forall_mem_map, promoted]
  by_cases warned : ∃ diagnostic ∈ compilation.diagnostics, diagnostic.severity = .warning
  · have any : compilation.diagnostics.any (·.severity = .warning) = true := by simpa using warned
    obtain ⟨diagnostic, member, severity⟩ := warned
    simp only [any, if_true, Option.isSome_none, Bool.false_eq_true, false_iff]
    intro none
    exact (none diagnostic member).1 severity
  · have none : compilation.diagnostics.any (·.severity = .warning) = false := by
      simpa using warned
    simp only [not_exists, not_and] at warned
    simp only [none, Bool.false_eq_true, if_false]
    refine Iff.trans decided ?_
    exact ⟨fun quiet diagnostic member => ⟨warned diagnostic member, quiet diagnostic member⟩,
      fun quiet diagnostic member => (quiet diagnostic member).2⟩

/-- What compiling units gives when the analysis has ended. -/
theorem compileUnits_eq {set : SourceSet} {after : Workspace}
    (analysed : Phase.analyze.Returns { options, units := set.units } () after) :
    compileUnits set options = do
      let model ←
        if after.report.hasErrors then pure none else some <$> Assembly.model after.program
      return { model, diagnostics := after.report.sorted, units := after.units
               sources := set.sources } := by
  unfold compileUnits
  rw [analysed]
  rfl

section Analysed

variable {workspace : Workspace} {units : List CompilationUnit}
  {recorded : List RecordedDeclaration} {fragments : List CompilationUnit}

/-- A program without errors is assembled. -/
theorem Workspace.Analysed.succeeds_model (analysed : workspace.Analysed units recorded fragments)
    (clean : workspace.reportAll.report.hasErrors = false) :
    Succeeds (Assembly.model workspace.program) :=
  Assembly.succeeds_model (analysed.sound ((Workspace.errorFree_iff analysed.report).mpr clean))

end Analysed

/-- Units compile when their analysis ends. -/
theorem compileUnits_decided {set : SourceSet} {after : Workspace}
    (returns : Phase.analyze.Returns { options, units := set.units } () after) :
    ∃ compilation, compileUnits set options = .ok compilation ∧ compilation.Decided := by
  obtain ⟨analysed, recorded, fragments, known, rfl⟩ := Phase.returns_analyze returns
  rw [compileUnits_eq returns]
  cases clean : analysed.reportAll.report.hasErrors with
  | true =>
    refine ⟨_, rfl, ?_⟩
    simp only [Compilation.Decided, Option.isSome_none, Bool.false_eq_true,
      ← Report.hasErrors_eq_false_iff, clean, Bool.true_eq_false]
  | false =>
    obtain ⟨model, assembled⟩ := known.succeeds_model clean
    have same : Assembly.model analysed.reportAll.program = .ok model := assembled
    rw [same]
    refine ⟨_, rfl, ?_⟩
    simp only [Compilation.Decided, Option.isSome_some, true_iff]
    exact Report.hasErrors_eq_false_iff.mp clean

/-- Counting warnings as errors makes no model. -/
theorem Compilation.model_of_promoteWarnings
    (found : compilation.promoteWarnings.model = some model) : compilation.model = some model := by
  rw [promoteWarnings] at found
  split at found
  · cases found
  · exact found

/-- The diagnostic apart from its severity. -/
def Diagnostic.unranked (diagnostic : Diagnostic) : Diagnostic :=
  { diagnostic with severity := .error }

theorem Compilation.unranked_promoteWarnings (compilation : Compilation) :
    compilation.promoteWarnings.diagnostics.map Diagnostic.unranked =
      compilation.diagnostics.map Diagnostic.unranked := by
  rw [promoteWarnings, List.map_map]
  apply List.map_congr_left
  intro diagnostic _
  simp only [Function.comp_apply]
  split <;> rfl

/-- What was compiled was analysed, and the diagnostics are those of the findings. -/
structure Compilation.ReportedFrom (compilation : Compilation) (set : SourceSet)
    (options : Options) (recorded : List RecordedDeclaration)
    (fragments : List CompilationUnit) (workspace : Workspace) : Prop
    extends workspace.Analysed set.units recorded fragments where
  returns : Phase.analyze.Returns { options, units := set.units } () workspace.reportAll
  units : compilation.units = workspace.units
  sources : compilation.sources = set.sources
  diagnostics : (compilation.diagnostics.map Diagnostic.unranked).Perm
    (workspace.findings.map fun finding => finding.diagnostic.unranked)

/-- Whatever compiling units gives was reported from an analysis. -/
theorem exists_reportedFrom_of_compileUnits {set : SourceSet}
    (compiled : compileUnits set options = .ok compilation) :
    ∃ workspace recorded fragments,
      compilation.ReportedFrom set options recorded fragments workspace := by
  rcases result : Phase.analyze.perform { options, units := set.units } with ⟨ended, after⟩
  cases ended with
  | error fault => simp [compileUnits, result, bind, Except.bind] at compiled
  | ok value =>
    obtain ⟨workspace, recorded, fragments, analysed, rfl⟩ := Phase.returns_analyze result
    obtain ⟨model, rfl⟩ : ∃ model, compilation =
        { model, diagnostics := workspace.reportAll.report.sorted, units := workspace.units
          sources := set.sources } := by
      rw [compileUnits_eq result] at compiled
      dsimp only at compiled
      split at compiled
      · cases compiled
        exact ⟨none, rfl⟩
      · rw [bind_eq_ok] at compiled
        obtain ⟨model, -, made⟩ := compiled
        cases made
        exact ⟨model, rfl⟩
    refine ⟨workspace, recorded, fragments,
      { analysed with returns := result, units := rfl, sources := rfl, diagnostics := ?_ }⟩
    rw [Report.sorted, Workspace.diagnostics_reportAll analysed.report]
    refine ((List.mergeSort_perm _ _).map Diagnostic.unranked).trans (.of_eq ?_)
    rw [List.map_map]
    rfl

/-- Whatever compiling trees gives was reported from an analysis. -/
theorem exists_reportedFrom_of_compile (compiled : compile trees configuration = .ok compilation) :
    ∃ workspace recorded fragments,
      compilation.ReportedFrom (.ofTrees trees) configuration.options recorded fragments
        workspace := by
  rw [compile, compileSources, bind_eq_ok] at compiled
  obtain ⟨outcome, done, promoted⟩ := compiled
  obtain ⟨workspace, recorded, fragments, reported⟩ := exists_reportedFrom_of_compileUnits done
  refine ⟨workspace, recorded, fragments, ?_⟩
  rw [pure_eq_ok] at promoted
  subst promoted
  split
  · exact { reported with
      units := reported.units
      sources := reported.sources
      diagnostics := by
        rw [outcome.unranked_promoteWarnings]
        exact reported.diagnostics }
  · exact reported

/-- A model of units was assembled of a program that was analysed without an error. -/
theorem exists_analysed_of_compileUnits {set : SourceSet}
    (compiled : compileUnits set options = .ok compilation)
    (found : compilation.model = some model) :
    ∃ workspace recorded fragments,
      Workspace.Analysed set.units recorded fragments workspace ∧ workspace.ErrorFree ∧
      Assembly.model workspace.program = .ok model ∧ compilation.units = workspace.units ∧
      Phase.analyze.Returns { options, units := set.units } () workspace.reportAll := by
  rcases result : Phase.analyze.perform { options, units := set.units } with ⟨ended, after⟩
  cases ended with
  | error fault => simp [compileUnits, result, bind, Except.bind] at compiled
  | ok value =>
    obtain ⟨workspace, recorded, fragments, analysed, rfl⟩ := Phase.returns_analyze result
    rw [compileUnits_eq result] at compiled
    cases clean : workspace.reportAll.report.hasErrors with
    | true =>
      rw [clean] at compiled
      cases compiled
      cases found
    | false =>
      obtain ⟨assembled, made⟩ := analysed.succeeds_model clean
      have same : Assembly.model workspace.reportAll.program = .ok assembled := made
      rw [clean, same] at compiled
      cases compiled
      cases found
      exact ⟨workspace, recorded, fragments, analysed,
        (Workspace.errorFree_iff analysed.report).mpr clean, made, rfl, result⟩

/-- A model of trees was assembled of a program that was analysed without an error. -/
theorem exists_analysed_of_compile (compiled : compile trees configuration = .ok compilation)
    (found : compilation.model = some model) :
    ∃ workspace recorded fragments,
      Workspace.Analysed (SourceSet.ofTrees trees).units recorded fragments workspace ∧
      workspace.ErrorFree ∧ Assembly.model workspace.program = .ok model ∧
      compilation.units = workspace.units ∧ Phase.analyze.Returns
        { options := configuration.options, units := (SourceSet.ofTrees trees).units } ()
        workspace.reportAll := by
  rw [compile, compileSources, bind_eq_ok] at compiled
  obtain ⟨outcome, done, promoted⟩ := compiled
  cases warnings : configuration.warningsAsErrors with
  | true =>
    rw [warnings, if_pos rfl, pure_eq_ok] at promoted
    subst promoted
    have analysed := exists_analysed_of_compileUnits done (outcome.model_of_promoteWarnings found)
    exact analysed
  | false =>
    rw [warnings, if_neg Bool.false_ne_true, pure_eq_ok] at promoted
    subst promoted
    exact exists_analysed_of_compileUnits done found

/-- The ids that the records of the program get. -/
abbrev Workspace.allocation (workspace : Workspace) : Allocation :=
  .ofProgram workspace.program

/-- A model and the workspace whose program it was assembled of, in terms of the units that were
compiled, their declarations and the fragments with inferred properties. -/
structure DomainModel.AssembledFrom (model : DomainModel) (units : List CompilationUnit)
    (recorded : List RecordedDeclaration) (fragments : List CompilationUnit)
    (workspace : Workspace) : Prop extends workspace.Analysed units recorded fragments where
  free : workspace.ErrorFree
  sound : workspace.program.Sound
  covers : (Allocation.ofProgram workspace.program).Covers workspace.program
  made : Assembly.Made workspace.program (.ofProgram workspace.program) model.parts
  /-- The names of the model are those of its parts. -/
  ofParts_parts : .ofParts model.parts = model

/-- Every model is assembled of a program. -/
theorem exists_assembledFrom_of_compile (compiled : compile trees configuration = .ok compilation)
    (found : compilation.model = some model) :
    ∃ workspace recorded fragments,
      model.AssembledFrom (SourceSet.ofTrees trees).units recorded fragments workspace ∧
      compilation.units = workspace.units ∧ Phase.analyze.Returns
        { options := configuration.options, units := (SourceSet.ofTrees trees).units } ()
        workspace.reportAll := by
  obtain ⟨workspace, recorded, fragments, analysed, free, assembled, units, returns⟩ :=
    exists_analysed_of_compile compiled found
  have sound := analysed.sound free
  rw [Assembly.model, bind_eq_ok] at assembled
  obtain ⟨parts, madeParts, result⟩ := assembled
  rw [pure_eq_ok] at result
  subst result
  exact ⟨workspace, recorded, fragments,
    { analysed with
      free, sound
      covers := Allocation.covers_ofProgram sound.coherent
      made := Assembly.made_of_parts madeParts
      ofParts_parts := rfl }, units, returns⟩

/-- Source files that are not too large are analysed to the end. -/
theorem analyze_returns (trees : List (String × Syntax.SourceTree)) (configuration : Configuration)
    (small : ∀ entry ∈ trees, entry.2.nodes.length < UInt32.size)
    (deep : 1 ≤ configuration.maxMacroDepth) :
    ∃ after, Phase.analyze.Returns
      { options := configuration.options, units := (SourceSet.ofTrees trees).units } () after := by
  have allowed : 0 < configuration.options.maxExpansionDepth := UInt32.le_iff_toNat_le.mp deep
  obtain ⟨⟨⟩, after, returns⟩ := Phase.succeeds_analyze allowed
    (SourceSet.nodup_recordKeys_ofTrees trees small)
  exact ⟨after, returns⟩

/-- Compiling never ends in a fault: the analysis ends, a program without errors is assembled,
and there is a model exactly when no diagnostic is an error, also when warnings count as
errors. -/
theorem compile_decided (trees : List (String × Syntax.SourceTree)) (configuration : Configuration)
    (small : ∀ entry ∈ trees, entry.2.nodes.length < UInt32.size)
    (deep : 1 ≤ configuration.maxMacroDepth) :
    (∃ compilation, compile trees configuration = .ok compilation ∧
      (compilation.model.isSome ↔
        ∀ diagnostic ∈ compilation.diagnostics, diagnostic.severity ≠ .error)) ∧
    ∃ analysed, Phase.analyze.perform
        { options := configuration.options, units := (SourceSet.ofTrees trees).units } =
          (.ok (), analysed) ∧
      (analysed.report.hasErrors = false →
        ∃ model, Assembly.model analysed.program = .ok model) := by
  obtain ⟨after, returns⟩ := analyze_returns trees configuration small deep
  constructor
  · obtain ⟨compilation, compiled, decided⟩ := compileUnits_decided returns
    rw [compile, compileSources, compiled]
    cases configuration.warningsAsErrors with
    | true => exact ⟨_, rfl, decided.promoteWarnings⟩
    | false => exact ⟨_, rfl, decided⟩
  · refine ⟨after, returns, fun clean => ?_⟩
    obtain ⟨analysed, recorded, fragments, known, rfl⟩ := Phase.returns_analyze returns
    exact known.succeeds_model clean

/-- A view of the model of a compilation shows that there is one. -/
theorem exists_model_of_map_eq_some {β : Type} {view : DomainModel → β} {value : β}
    (seen : ((compile trees configuration).toOption.bind (·.model)).map view = some value) :
    ∃ compilation model, compile trees configuration = .ok compilation ∧
      compilation.model = some model ∧ view model = value := by
  cases compiled : compile trees configuration with
  | error fault => simp [compiled, Except.toOption] at seen
  | ok compilation =>
    cases found : compilation.model with
    | none => simp [compiled, found, Except.toOption] at seen
    | some model =>
      simp only [compiled, found, Except.toOption, Option.bind_some, Option.map_some,
        Option.some.injEq] at seen
      exact ⟨compilation, model, rfl, found, seen⟩

end Compilations

namespace Sample

open Syntax

/-- A property with a number. -/
def number (name : String) (optional : Bool) (modifiers : List Modifier) : Member :=
  .property (.bare name (.primitive .long) optional modifiers [])

/-- A class with modifiers and members. -/
def klass (name : String) (superclass : Option String) (modifiers : List Modifier)
    (members : List Member) : Declaration :=
  .klass {
    toNode := .bare
    name := .bare name
    isUser := false
    abstraction := none
    superclass := superclass.map Identifier.bare
    interfaces := []
    modifiers := modifiers.map ModifierMark.bare
    members }

/-- A document has a version, which is a document, and is the version of others. -/
def association : Association where
  toNode := .bare
  name := .bare "Versions"
  source := ⟨.bare, .bare "version", .bare "Doc", .zeroToOne, [.bare .version], none⟩
  target := ⟨.bare, .bare "olds", .bare "Doc", .zeroToMany, [],
    some (.ofPaths [("number", .ascending)])⟩
  relationship := .equal (.this "number") (.ofType "Doc.next")

/-- A parameter that is a number. -/
def parameter (name : String) : Parameter :=
  ⟨.bare, .bare name, .primitive .long, .oneToOne⟩

/-- A service that replaces a document, with a criterion on its number. -/
def service : Service where
  toNode := .bare
  verb := .put
  multiplicity := .one
  clauses := [.bare .criteria (.equal (.this "number") (.named "number"))]
  projection := some (.bare "View")
  orderBy := some (.ofPaths [("number", .descending)])

/-- Documents with versions. One class extends another, the association joins a class with
itself, and the service gets an inferred clause. -/
def trees : List (String × SourceTree) := [
  ("documents", {
    package := ⟨.bare, "com.example"⟩
    elements := [
      klass "Doc" none [] [number "number" false [.key], number "next" true []],
      .association association] }),
  ("services", {
    package := ⟨.bare, "com.example"⟩
    elements := [
      klass "Folder" (some "Doc") [] [],
      .projection ⟨.bare, .bare "View", .bare "Folder",
        [.property .bare (.bare "number") "Number",
          .reference .bare (.bare "olds") [.property .bare (.bare "next") "Since"]]⟩,
      .serviceGroup {
        toNode := .bare
        name := .bare "Service"
        target := .bare "Folder"
        urls := [{
          toNode := .bare
          path := [.constant (.bare "folder"), .parameter (parameter "number")]
          queryParameters := [parameter "version"]
          services := [service] }] }] })]

/-- The documents have a model, with two ends, a projection, a service of two clauses and a
foreign key. -/
theorem compiles : ∃ compilation model, compile trees {} = .ok compilation ∧
    compilation.model = some model ∧ model.parts.associationEnds.length = 2 ∧
    model.parts.projections.length = 1 ∧
    model.parts.services.map (·.clauses.length) = [2] ∧
    model.parts.foreignKeys = [⟨⟨0⟩, ⟨1⟩, ⟨0⟩⟩] := by
  have sizes : ((compile trees {}).toOption.bind (·.model)).map (fun model =>
      (model.parts.associationEnds.length, model.parts.projections.length,
        model.parts.services.map (·.clauses.length), model.parts.foreignKeys)) =
      some (2, 1, [2], [⟨⟨0⟩, ⟨1⟩, ⟨0⟩⟩]) := by cbv
  obtain ⟨compilation, model, compiled, found, sizes⟩ := exists_model_of_map_eq_some sizes
  simp only [Prod.mk.injEq] at sizes
  exact ⟨compilation, model, compiled, found, sizes⟩

end Sample

/-- Documents compile, also when warnings count as errors. -/
theorem compile_decided_documents :
    ∃ compilation, compile Sample.trees { warningsAsErrors := true } = .ok compilation ∧
      (compilation.model.isSome ↔
        ∀ diagnostic ∈ compilation.diagnostics, diagnostic.severity ≠ .error) :=
  (compile_decided Sample.trees { warningsAsErrors := true } (by decide +kernel) (by decide)).1

end DomainLang
