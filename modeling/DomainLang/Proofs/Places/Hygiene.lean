import DomainLang.Proofs.Index.Contexts
import DomainLang.Proofs.Places.Origins

/-!
# Nobody is blamed for what is inferred

A problem that is reported in a fragment is always one with what was written: an inferred
property has the name of a member that is there already, or an inferred clause asks for a
version number that cannot be reached. `Workspace.Permits` says so about a finding.
-/

namespace DomainLang

open Resolved

/-- The kinds of problems that may be found in what an inference adds. -/
def Inference.mayCause : Inference → List ProblemKind
  | temporalProperties => [.duplicateMember]
  | serviceCriteria => [.unresolvedThisMember, .unresolvedHop]

namespace Workspace

/-- A finding in a fragment is of a kind that the inference may cause. -/
def Permits (workspace : Workspace) (finding : Finding) : Prop :=
  ∀ unit ∈ workspace.units, unit.id = finding.unit → ∀ expansion,
    unit.expansion = some expansion → finding.problem.kind ∈ expansion.inference.mayCause

variable {workspace : Workspace} {trees : List (String × Syntax.SourceTree)}
  {recorded : List RecordedDeclaration} {fragments : List CompilationUnit}

/-- Anything may be found in a source file. -/
theorem IsSource.permits {finding : Finding} (source : workspace.IsSource finding.unit) :
    workspace.Permits finding := by
  intro unit member same expansion made
  rw [source unit member same] at made
  cases made

theorem IsFragment.permits {finding : Finding} {inference : Inference}
    (fragment : workspace.IsFragment inference finding.unit)
    (may : finding.problem.kind ∈ inference.mayCause) : workspace.Permits finding := by
  intro unit member same expansion made
  obtain ⟨other, found, rfl⟩ := fragment unit member same
  obtain rfl := Option.some.inj (made.symm.trans found)
  exact may

/-- All that can be wrong with an inferred property is that its name is taken. -/
theorem BlamesProperty.kind_eq {index : PropertyIndex} {finding : Finding}
    (blames : workspace.BlamesProperty index finding) {family : Modifier} {part : TemporalPart}
    (infers : Temporal.Infers family part (workspace.program.properties.get index)) :
    finding.problem.kind = .duplicateMember := by
  cases blames with
  | member kind => exact kind
  | details reported =>
    rw [infers.property_eq_nil] at reported
    cases reported
  | type reported => simp [Rules.unknownEnumeration, infers.type] at reported
  | rules reported =>
    rw [Rules.propertyRules_eq_nil infers] at reported
    cases reported
  | @marked modifier has single =>
    have other : modifier ∉
        [Modifier.valid, .system, .privateAccess, .fromInstant, .toInstant] := by
      revert single
      cases modifier <;> decide
    rw [infers.has_eq_false modifier other] at has
    cases has
  | name wrong =>
    rw [infers.isMemberName] at wrong
    cases wrong

/-- All that can be wrong with an inferred clause is that it does not find what it names. -/
theorem BlamesClause.kind_mem {service : Service} {clause : Clause} {finding : Finding}
    (blames : BlamesClause service clause finding) (inOrder : service.ClauseInOrder clause) :
    finding.problem.kind ∈ Inference.serviceCriteria.mayCause := by
  cases blames with
  | again member =>
    -- An inferred clause is the only one of its kind.
    obtain ⟨-, twice⟩ := List.mem_filter.mp member
    rw [decide_eq_true_eq, List.countP_eq_length_filter, inOrder.single] at twice
    exact absurd twice (by simp)
  | refused kind => exact absurd inOrder.allowed kind
  | criteria reported =>
    obtain ⟨criteria, resolved, origins, found, unmisused⟩ := inOrder.criteria
    rw [resolved, Option.elim_some] at reported
    simp only [Rules.criteriaRules, unmisused, List.append_nil, List.mem_append,
      List.mem_flatMap, List.mem_map, List.mem_filter] at reported
    rcases reported with ⟨path, among, broken⟩ | ⟨use, ⟨among, unknown⟩, -⟩
    · have kind := (Rules.reports_memberPath path finding broken).2.2
      rwa [Rules.pathKinds, origins path among] at kind
    · rw [found use among] at unknown
      cases unknown

/-- Every finding is permitted. -/
theorem Analysed.permits_findings
    (analysed : workspace.Analysed (SourceSet.ofTrees trees).units recorded fragments)
    (flawless : workspace.Flawless) :
    ∀ finding ∈ workspace.findings, workspace.Permits finding := by
  intro finding found
  rcases analysed.grounded_findings finding found with
    written | ⟨holds, unit, -, blames⟩ | ⟨holds, member, unit, -, blames⟩
  · exact (analysed.isSource written).permits
  · rcases analysed.property_cases holds with ⟨-, source⟩ | ⟨⟨family, part, infers⟩, fragment⟩
    · rw [← unit] at source
      exact source.permits
    · rw [← unit] at fragment
      exact fragment.permits (List.mem_singleton.mpr (blames.kind_eq infers))
  · rcases analysed.clause_cases holds member with ⟨-, source⟩ | ⟨inferred, fragment⟩
    · rw [← unit] at source
      exact source.permits
    · rw [← unit] at fragment
      exact fragment.permits
        (blames.kind_mem (flawless.clauses _ holds _ member inferred))

/-- Reporting findings changes nothing that was inferred. -/
theorem Flawless.reportAll (flawless : workspace.Flawless) : workspace.reportAll.Flawless where
  properties := by
    intro index holds inferred
    have inOrder := flawless.properties index holds inferred
    exact ⟨inOrder.name, inOrder.details, inOrder.unmarked, inOrder.rules⟩
  clauses := flawless.clauses

end Workspace

/-- A diagnostic in a fragment is of a kind that the inference of the fragment may cause. -/
def Compilation.Hygienic (compilation : Compilation) : Prop :=
  ∀ diagnostic ∈ compilation.diagnostics, ∀ unit ∈ compilation.units,
    diagnostic.unit = some unit.id → ∀ expansion, unit.expansion = some expansion →
      diagnostic.kind ∈ expansion.inference.mayCause

/-- Whatever was compiled, in fragments with temporal properties only members with the name of
another one are reported, and in fragments with clauses only members and ends that are not
there. Everything that was inferred obeys the rules for single properties and clauses. -/
theorem compile_hygienic {trees : List (String × Syntax.SourceTree)}
    {configuration : Configuration} {compilation : Compilation}
    (compiled : compile trees configuration = .ok compilation) :
    compilation.Hygienic ∧ ∃ analysed,
      Phase.analyze.perform
          { options := configuration.options, units := (SourceSet.ofTrees trees).units } =
        (.ok (), analysed) ∧
      compilation.units = analysed.units ∧ analysed.Flawless := by
  obtain ⟨workspace, recorded, fragments, reported⟩ := exists_reportedFrom_of_compile compiled
  have flawless := reported.toAnalysed.flawless reported.returns
  refine ⟨?_, workspace.reportAll, reported.returns, reported.units, flawless.reportAll⟩
  intro diagnostic member unit among named
  obtain ⟨finding, found, same⟩ := List.mem_map.mp
    (reported.diagnostics.subset (List.mem_map_of_mem (f := Diagnostic.unranked) member))
  have kind : finding.problem.kind = diagnostic.kind := congrArg Diagnostic.kind same
  have place : some finding.unit = diagnostic.unit := congrArg Diagnostic.unit same
  rw [reported.units] at among
  rw [← kind]
  rw [named] at place
  exact reported.toAnalysed.permits_findings flawless finding found unit among
    (Option.some.inj place).symm

/-- The range that is inferred for contracts has the name of a number that is written. That is
all that is reported in the fragment, though the class also lacks a key. -/
theorem compile_hygienic_contracts :
    ∃ compilation, compile [("contracts", Sample.contracts)] {} = .ok compilation ∧
      compilation.diagnostics.map (fun diagnostic => (diagnostic.unit, diagnostic.kind)) =
        [(some ⟨0⟩, .duplicateMember), (some ⟨0⟩, .missingKey), (some ⟨1⟩, .duplicateMember)] ∧
      compilation.Hygienic ∧ ∃ analysed,
        Phase.analyze.perform
            { options := ({} : Configuration).options
              units := (SourceSet.ofTrees [("contracts", Sample.contracts)]).units } =
          (.ok (), analysed) ∧
        compilation.units = analysed.units ∧ analysed.Flawless := by
  have kinds : (compile [("contracts", Sample.contracts)] {}).toOption.map (fun compilation =>
      compilation.diagnostics.map fun diagnostic => (diagnostic.unit, diagnostic.kind)) =
      some [(some ⟨0⟩, .duplicateMember), (some ⟨0⟩, .missingKey),
        (some ⟨1⟩, .duplicateMember)] := by cbv
  cases compiled : compile [("contracts", Sample.contracts)] {} with
  | error fault => simp [compiled, Except.toOption] at kinds
  | ok compilation =>
    simp only [compiled, Except.toOption, Option.map_some, Option.some.injEq] at kinds
    exact ⟨compilation, rfl, kinds, compile_hygienic compiled⟩

end DomainLang
