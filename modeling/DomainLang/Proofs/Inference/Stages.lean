import DomainLang.Proofs.Inference.Completion
import DomainLang.Proofs.Inference.Missing

/-!
# The stages of an analysis

An analysis that ends has gone through four stages: everything is declared and linked,
properties are inferred, clauses are inferred, and the remaining names are looked up. Members
are settled after the second stage.
-/

namespace DomainLang

open Resolved

/-- What classifiers have depends on the records of classifiers and properties only. -/
theorem Program.ownProperties_congr {first second : Program}
    (interfaces : second.interfaces = first.interfaces) (classes : second.classes = first.classes)
    (properties : second.properties = first.properties) :
    second.ownProperties = first.ownProperties := by
  funext classifier
  cases classifier with
  | interface index =>
    rw [ownProperties, ownProperties, classifier, classifier, interfaces, properties]
  | klass index =>
    rw [ownProperties, ownProperties, classifier, classifier, classes, properties]

namespace Phase

variable {options : Options} {units : List CompilationUnit}

/-- What is known when everything is declared and linked, and nothing is inferred yet. -/
structure Started (options : Options) (units : List CompilationUnit)
    (recorded : List RecordedDeclaration) (start : Workspace) : Prop where
  keys : start.registry.keys =
    (recordKeys (declarationsOf units) ++ (declarationsOf units).flatMap memberKeys).reverse
  linked : start.Linked units recorded []
  units_eq : start.units = units
  options_eq : start.options = options
  depth : start.expansionDepth = 0
  clausesDeclared : start.program.ClausesDeclared
  unreferenced : start.program.referencedProperties = []

/-- The workspaces that an analysis goes through: `start` when everything is declared and
linked, `inferred` with all properties and `served` with all clauses. -/
structure Stages (options : Options) (units : List CompilationUnit)
    (recorded : List RecordedDeclaration) (fragments : List CompilationUnit)
    (start inferred served : Workspace) : Prop extends Started options units recorded start where
  temporal : (optionally (·.temporalProperties) inferTemporalProperties).Returns start () inferred
  criteria : (optionally (·.serviceCriteria) inferServiceCriteria).Returns inferred () served
  analysed : served.linkReferences.Analysed units recorded fragments
  /-- A service has inferred the clause that it would otherwise miss. -/
  inferredClauses : ∀ index, served.linkReferences.program.services.Holds index →
    (served.linkReferences.program.services.get index).inferredClauses =
      if options.serviceCriteria then
        (Service.missingClause? served.registry served.linkReferences.program
          (served.linkReferences.program.services.get index).asWritten).toList
      else []

/-- Declaring and linking leads to a start. -/
theorem started_linkDeclarations {declared withMembers : Workspace}
    (declares : declareUnits.Returns { options, units } () declared)
    (members : declareClassifierMembers.Returns declared () withMembers) :
    ∃ recorded, Started options units recorded withMembers.linkDeclarations := by
  obtain ⟨recorded, linked, grows⟩ := linked_linkDeclarations declares members
  obtain ⟨clausesDeclared, unreferenced, options⟩ := untouched_linkDeclarations declares members
  have keys : withMembers.registry.keys =
      (recordKeys (declarationsOf units) ++ (declarationsOf units).flatMap memberKeys).reverse := by
    rw [grows.keys_eq]
    exact List.append_nil _
  have depth : withMembers.expansionDepth = 0 := by rw [grows.surroundings]
  exact ⟨recorded, keys, linked, grows.units_eq, options, depth, clausesDeclared, unreferenced⟩

/-- Every analysis that ends has gone through its stages. -/
theorem exists_stages {after : Workspace} (returns : analyze.Returns { options, units } () after) :
    ∃ recorded fragments start inferred served,
      Stages options units recorded fragments start inferred served ∧
        after = served.linkReferences.reportAll := by
  have clauses := @inferredClauses_analyze after options units returns
  obtain ⟨declared, withMembers, withProperties, withClauses, declares, members, temporal,
    criteria, rfl⟩ := returns_analyze_iff.mp returns
  obtain ⟨recorded, started⟩ := started_linkDeclarations declares members
  obtain ⟨fragments, infers⟩ := returns_optionally_inferTemporalProperties temporal
  have adds := returns_optionally_inferServiceCriteria criteria
  simp only [Workspace.program_reportAll, Workspace.registry_reportAll,
    Workspace.registry_linkReferences] at clauses
  have sameUnits := started.units_eq
  have whole :
      withMembers.linkDeclarations.Linked withMembers.linkDeclarations.units recorded [] := by
    rw [sameUnits]
    exact started.linked
  have inferred := adds.linked infers.units (infers.linked whole)
  rw [sameUnits] at inferred
  exact ⟨recorded, fragments, withMembers.linkDeclarations, withProperties, withClauses,
    ⟨started, temporal, criteria, inferred.linkReferences, @clauses⟩, rfl⟩

/-- When no two nodes share a context, everything can be declared and linked; the analysis ends
if the inferences do. -/
theorem exists_started
    (distinct : (recordKeys (declarationsOf units) ++
      (declarationsOf units).flatMap memberKeys).Nodup) :
    ∃ recorded start, Started options units recorded start ∧ ∀ inferred served,
      (optionally (·.temporalProperties) inferTemporalProperties).Returns start () inferred →
      (optionally (·.serviceCriteria) inferServiceCriteria).Returns inferred () served →
      analyze.Returns { options, units } () served.linkReferences.reportAll := by
  have fresh : ({ options, units } : Workspace).registry.Fresh
      (recordKeys (declarationsOf units) ++ (declarationsOf units).flatMap memberKeys) :=
    ⟨distinct, by rintro _ _ ⟨⟩⟩
  have declaring : declareUnits.Succeeds { options, units } :=
    succeeds_declareUnits rfl rfl rfl fresh.left.distinct
  obtain ⟨⟨⟩, declared, declares⟩ := declaring
  obtain ⟨grows, recorded, written, known⟩ := returns_declareUnits rfl rfl declares
  have sameUnits : declared.units = units := grows.units_eq
  have freshMembers := fresh.right grows
  rw [← sameUnits] at written freshMembers
  have filling : declareClassifierMembers.Succeeds declared :=
    succeeds_declareClassifierMembers written (grows.nodup List.nodup_nil) known.records
      (by rw [grows.surroundings]) freshMembers
  obtain ⟨⟨⟩, withMembers, members⟩ := filling
  obtain ⟨recorded, started⟩ := started_linkDeclarations declares members
  refine ⟨recorded, _, started, fun inferred served temporal criteria => ?_⟩
  exact returns_analyze_iff.mpr ⟨_, _, _, _, declares, members, temporal, criteria, rfl⟩

/-- Contexts of declarations stand in units of the declarations. -/
theorem exists_unit_of_mem_keys {key : ContextKey}
    (member : key ∈ recordKeys (declarationsOf units) ++
      (declarationsOf units).flatMap memberKeys) : ∃ unit ∈ units, unit.id = key.unit := by
  have among {declaration : SourceDeclaration} (source : declaration ∈ declarationsOf units) :
      declaration.1 ∈ units := by
    obtain ⟨unit, unitMember, element, -, rfl⟩ := by
      simpa [declarationsOf] using source
    exact unitMember
  rw [List.mem_append, recordKeys, List.mem_flatMap, List.mem_flatMap] at member
  rcases member with ⟨declaration, source, node⟩ | ⟨declaration, source, node⟩
  · obtain ⟨_, _, rfl⟩ := List.mem_map.mp node
    exact ⟨declaration.1, among source, rfl⟩
  · obtain ⟨_, _, rfl⟩ := List.mem_map.mp node
    exact ⟨declaration.1, among source, rfl⟩

namespace Started

variable {options : Options} {units : List CompilationUnit} {recorded : List RecordedDeclaration}
  {start : Workspace} (started : Started options units recorded start)
include started

theorem expandable (deep : 0 < options.maxExpansionDepth) : start.Expandable := by
  apply started.linked.expandable
  · rw [started.depth, started.options_eq]
    exact deep
  · intro key registered
    rw [started.keys, List.mem_reverse] at registered
    obtain ⟨unit, member, same⟩ := exists_unit_of_mem_keys registered
    exact ⟨unit, by rw [started.units_eq]; exact member, same⟩

end Started

/-- Analysis succeeds when no two nodes that get records share a context and expansions are
allowed. -/
theorem succeeds_analyze (deep : 0 < options.maxExpansionDepth)
    (distinct : (recordKeys (declarationsOf units) ++
      (declarationsOf units).flatMap memberKeys).Nodup) : analyze.Succeeds { options, units } := by
  obtain ⟨recorded, start, started, ends⟩ := exists_started distinct
  have expandable := started.expandable deep
  have properties : (optionally (·.temporalProperties) inferTemporalProperties).Succeeds start :=
    succeeds_optionally (succeeds_inferTemporalProperties expandable)
  obtain ⟨⟨⟩, inferred, temporal⟩ := properties
  obtain ⟨_, infers⟩ := returns_optionally_inferTemporalProperties temporal
  have clauses : (optionally (·.serviceCriteria) inferServiceCriteria).Succeeds inferred :=
    succeeds_optionally (succeeds_inferServiceCriteria (infers.expandable expandable))
  obtain ⟨⟨⟩, served, criteria⟩ := clauses
  exact ⟨(), _, ends inferred served temporal criteria⟩

namespace Stages

variable {options : Options} {units : List CompilationUnit}
  {recorded : List RecordedDeclaration} {fragments : List CompilationUnit}
  {start inferred served : Workspace}
  (stages : Stages options units recorded fragments start inferred served)
include stages

/-- Inferring clauses and looking up names leaves classifiers and properties alone. -/
theorem classifiers_linkReferences :
    served.linkReferences.program.interfaces = inferred.program.interfaces ∧
      served.linkReferences.program.classes = inferred.program.classes ∧
      served.linkReferences.program.properties = inferred.program.properties := by
  have infers := returns_optionally_inferServiceCriteria stages.criteria
  have program : served.linkReferences.program =
      served.program.linkReferences served.registry := rfl
  have same := (served.program.sameLookups_linkReferences served.registry).program
  rw [program, same, infers.program]
  exact ⟨rfl, rfl, rfl⟩

theorem ownProperties_linkReferences :
    served.linkReferences.program.ownProperties = inferred.program.ownProperties := by
  obtain ⟨interfaces, classes, properties⟩ := stages.classifiers_linkReferences
  exact Program.ownProperties_congr interfaces classes properties

/-- Classifiers are the same in all stages, apart from their members. -/
theorem sameClassifiers : start.program.SameClassifiers served.linkReferences.program := by
  obtain ⟨fragments, infers⟩ := returns_optionally_inferTemporalProperties stages.temporal
  obtain ⟨interfaces, classes, -⟩ := stages.classifiers_linkReferences
  exact ⟨by rw [interfaces]; exact infers.adds.classifiers.interfaces,
    by rw [classes]; exact infers.adds.classifiers.classes⟩

end Stages
end Phase
end DomainLang
