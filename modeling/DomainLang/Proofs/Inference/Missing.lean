import DomainLang.Proofs.Analysis

/-!
# Exactly what is missing is inferred

The inference of clauses visits every service once. Nothing that it adds to one service is
looked at when another is visited, so in the end the inferred clause of a service is the one
that the service misses in the program that comes out, if it misses one.
-/

namespace DomainLang

open Resolved

/-- The service without the clauses that were inferred. -/
def Resolved.Service.asWritten (service : Service) : Service :=
  { service with clauses := service.clauses.filter fun clause => clause.inferred.isNone }

namespace Service

/-- A clause is missing only where the url takes a version. -/
theorem takesVersion_of_missingClause? {registry : Registry} {program : Program}
    {service : Resolved.Service} {clause : Syntax.Clause}
    (missing : missingClause? registry program service = some clause) :
    takesVersion program (program.urls.get service.url) = true := by
  simp only [missingClause?, Option.bind_eq_bind, Option.bind_eq_some_iff] at missing
  obtain ⟨klass, -, versionEnd, -, made, -, asked⟩ := missing
  split at asked
  · next wanted => exact (Bool.and_eq_true_iff.mp wanted).1
  · cases asked

end Service

/-- The last clauses of a service were inferred, and they are the ones given. -/
def Resolved.Service.Gains (before after : Service) (missing : Option Syntax.Clause) : Prop :=
  ∃ added, after = { before with clauses := before.clauses ++ added } ∧
    added.map (·.declaration.stripped) = missing.toList ∧
    ∀ clause ∈ added, clause.inferred.isSome

namespace Resolved.Service

def inferredClauses (service : Service) : List Syntax.Clause :=
  (service.clauses.filter fun clause => clause.inferred.isSome).map (·.declaration.stripped)

/-- A service that had no inferred clause has those that it gained. -/
theorem Gains.inferredClauses_eq {before after : Service} {missing : Option Syntax.Clause}
    (gains : before.Gains after missing)
    (written : ∀ clause ∈ before.clauses, clause.inferred = none) :
    after.inferredClauses = missing.toList ∧ after.asWritten = before := by
  obtain ⟨added, rfl, same, inferred⟩ := gains
  have noneBefore : before.clauses.filter (fun clause => clause.inferred.isSome) = [] := by
    simpa [List.filter_eq_nil_iff] using written
  have allBefore : before.clauses.filter (fun clause => clause.inferred.isNone) =
      before.clauses := by
    simpa [List.filter_eq_self] using written
  have allAdded : added.filter (fun clause => clause.inferred.isSome) = added := by
    simpa [List.filter_eq_self] using inferred
  have noneAdded : added.filter (fun clause => clause.inferred.isNone) = [] := by
    rw [List.filter_eq_nil_iff]
    intro clause member
    simpa [Option.isSome_iff_ne_none] using inferred clause member
  constructor
  · rw [inferredClauses, List.filter_append, noneBefore, allAdded, List.nil_append, same]
  · rw [asWritten, List.filter_append, allBefore, noneAdded, List.append_nil]

/-- Looking up names changes neither which clauses are inferred nor their kinds. -/
theorem inferredClauses_of_unlinked_eq {before after : Service}
    (same : after.unlinked = before.unlinked) :
    after.inferredClauses = before.inferredClauses ∧
      after.asWritten.hasClause = before.asWritten.hasClause := by
  have clauses : after.clauses.map Clause.unlinked = before.clauses.map Clause.unlinked :=
    congrArg Service.clauses same
  have ofUnlinked (service : Service) :
      service.inferredClauses = ((service.clauses.map Clause.unlinked).filter fun clause =>
          clause.inferred.isSome).map (·.declaration.stripped) ∧
        service.asWritten.hasClause = fun kind => ((service.clauses.map Clause.unlinked).filter
          fun clause => clause.inferred.isNone).any (·.kind = kind) := by
    constructor
    · rw [inferredClauses, List.filter_map, List.map_map]
      rfl
    · funext kind
      rw [hasClause, asWritten, List.filter_map, List.any_map]
      rfl
  rw [(ofUnlinked after).1, (ofUnlinked after).2, (ofUnlinked before).1, (ofUnlinked before).2,
    clauses]
  exact ⟨rfl, rfl⟩

end Resolved.Service

/-- Looking up names in references changes nothing about what is missing. -/
theorem Program.inferredClauses_linkReferences (program : Program) (registry : Registry)
    {index : ServiceIndex} (holds : (program.linkReferences registry).services.Holds index) :
    program.services.Holds index ∧
      ((program.linkReferences registry).services.get index).inferredClauses =
        (program.services.get index).inferredClauses ∧
      Service.missingClause? registry (program.linkReferences registry)
          ((program.linkReferences registry).services.get index).asWritten =
        Service.missingClause? registry program (program.services.get index).asWritten := by
  have unlinked := (program.unlinked_linkReferences registry).symm
  have same := program.sameLookups_linkReferences registry
  have services : program.services.map Service.unlinked =
      (program.linkReferences registry).services.map Service.unlinked :=
    congrArg Program.services unlinked
  have ends : program.associationEnds.map AssociationEnd.unlinked =
      (program.linkReferences registry).associationEnds.map AssociationEnd.unlinked :=
    congrArg Program.associationEnds unlinked
  have record : ((program.linkReferences registry).services.get index).unlinked =
      (program.services.get index).unlinked :=
    Arena.field_get_of_map_eq services Service.unlinked
      (fun record => by simp [Service.unlinked, Clause.unlinked]) index
  have url := congrArg Service.url record
  have declaration := congrArg Service.declaration record
  simp only [Service.unlinked] at url declaration
  obtain ⟨inferred, kinds⟩ := Service.inferredClauses_of_unlinked_eq record
  have urls : (program.linkReferences registry).urls = program.urls := by rw [same.program]
  have classes : (program.linkReferences registry).classes = program.classes := by
    rw [same.program]
  refine ⟨(Arena.holds_iff_of_map_eq services).mp holds, inferred, ?_⟩
  have sameEnds : Service.versionEnd? (program.linkReferences registry) =
      Service.versionEnd? program := by
    funext klass
    have marked : (fun associationEnd =>
        ((program.linkReferences registry).associationEnds.get associationEnd).has .version) =
          fun associationEnd => (program.associationEnds.get associationEnd).has .version := by
      funext associationEnd
      exact Arena.field_get_of_map_eq ends (·.has .version) (fun _ => rfl) associationEnd
    simp only [Service.versionEnd?, Program.allAssociationEnds, marked, classes, same.endName_eq,
      same.superclassChain_eq]
  simp only [Service.missingClause?, kinds]
  simp only [Service.className, Service.takesVersion, Service.asWritten, url, urls,
    same.classNames, sameEnds, same.endName_eq, same.parameterNames, declaration]
  rfl

namespace Phase

variable {before after : Workspace}

/-- The visited service gains its missing clause, and no other service changes. -/
theorem gains_inferServiceCriteriaOf {index : ServiceIndex}
    (holds : before.program.services.Holds index)
    (returns : (inferServiceCriteriaOf index).Returns before () after) :
    (before.program.services.get index).Gains (after.program.services.get index)
        (Service.missingClause? before.registry before.program
          (before.program.services.get index)) ∧
      ∀ other, other ≠ index →
        after.program.services.get other = before.program.services.get other := by
  simp only [inferServiceCriteriaOf, returns_get_bind] at returns
  split at returns
  · next complete =>
    obtain ⟨-, rfl⟩ := returns_pure.mp returns
    exact ⟨⟨[], by simp, by simp [complete], by simp⟩, fun _ _ => rfl⟩
  · next clause missing =>
    obtain ⟨⟨versionEnd, made⟩, -⟩ := Service.missingClause?_eq_some missing
    obtain ⟨parent, inner, -, merged, rfl⟩ := returns_expandDeclaration
      (fun parent inner merged => by
        obtain ⟨numbered, -, -, -, effect⟩ := returns_mergeClause before parent index clause
        rw [effect inner merged]
        exact ⟨rfl, rfl⟩) returns
    obtain ⟨numbered, same, -, -, effect⟩ := returns_mergeClause before parent index clause
    rw [effect inner merged]
    constructor
    · refine ⟨[.ofDeclaration (serviceFragment before parent index clause).id
        (some .serviceCriteria) numbered], Arena.get_modify_self holds _, ?_,
        by simp [Clause.ofDeclaration]⟩
      rw [Service.stripped_versionClause made] at same
      simp [Clause.ofDeclaration, same, missing]
    · exact fun other different => Arena.get_modify_of_ne different _

/-- Every service gains the clause that it missed at the start. -/
theorem gains_inferServiceCriteria (returns : inferServiceCriteria.Returns before () after)
    {index : ServiceIndex} (holds : before.program.services.Holds index) :
    (before.program.services.get index).Gains (after.program.services.get index)
      (Service.missingClause? before.registry before.program
        (before.program.services.get index)) := by
  simp only [inferServiceCriteria, returns_get_bind] at returns
  -- Services that were visited have gained their clause; the others are as they were.
  refine (returns.forM_induction
    (fun visited current => before.InfersClauses current ∧
      ∀ index, before.program.services.Holds index →
      if index ∈ visited then
        (before.program.services.get index).Gains (current.program.services.get index)
          (Service.missingClause? before.registry before.program
            (before.program.services.get index))
      else current.program.services.get index = before.program.services.get index)
    ⟨.refl before, by simp⟩ ?_).2 index holds |> fun gains => by
      simpa [Arena.mem_indices.mpr holds] using gains
  rintro visited service rest current following split ⟨infers, sofar⟩ step
  have nodup := before.program.services.nodup_indices
  rw [split, List.nodup_append] at nodup
  have fresh : service ∉ visited := fun seen =>
    nodup.2.2 service seen service List.mem_cons_self rfl
  have held : before.program.services.Holds service :=
    Arena.mem_indices.mp (by rw [split]; simp)
  have stillHeld : current.program.services.Holds service := by
    simpa [Arena.Holds, infers.size] using held
  obtain ⟨gains, others⟩ := gains_inferServiceCriteriaOf stillHeld step
  refine ⟨infers.trans (returns_inferServiceCriteriaOf stillHeld step), fun index holds => ?_⟩
  have earlier := sofar index holds
  by_cases same : index = service
  · subst same
    rw [if_neg fresh] at earlier
    have registry : current.registry = before.registry := by rw [infers.surroundings]
    have unread : Service.missingClause? before.registry current.program
        (before.program.services.get index) =
          Service.missingClause? before.registry before.program
            (before.program.services.get index) := by
      rw [infers.program]
      rfl
    rw [earlier, registry, unread] at gains
    simpa using gains
  · rw [others index same]
    simpa [same] using earlier

/-- When declarations are linked no clause is inferred yet, nothing refers to a property, and the
options are those given. -/
theorem untouched_linkDeclarations {options : Options} {units : List CompilationUnit}
    {declared withMembers : Workspace}
    (declares : declareUnits.Returns { options, units } () declared)
    (members : declareClassifierMembers.Returns declared () withMembers) :
    withMembers.linkDeclarations.program.ClausesDeclared ∧
      withMembers.linkDeclarations.program.referencedProperties = [] ∧
      withMembers.options = options := by
  obtain ⟨grows, recorded, written, known⟩ := returns_declareUnits rfl rfl declares
  have sameUnits : declared.units = units := grows.units_eq
  have writtenThere : recorded.map Prod.fst = declarationsOf declared.units := by
    rw [sameUnits]
    exact written
  obtain ⟨adds, -, -⟩ := returns_declareClassifierMembers writtenThere
    (grows.nodup List.nodup_nil) known.records members
  have services : withMembers.linkDeclarations.program.services = declared.program.services := by
    change withMembers.program.services = _
    rw [adds.others]
  have clauses := known.memberless.clauses
  rw [Program.ClausesDeclared, ← services] at clauses
  refine ⟨clauses, ?_, ?_⟩
  · change withMembers.program.referencedProperties = []
    rw [adds.others]
    exact known.memberless.referenced
  · calc withMembers.options = declared.options := by rw [adds.surroundings]
      _ = options := by rw [grows.surroundings]

/-- No clause is inferred before the inference of clauses, which is asked for by the options
given. -/
theorem clausesDeclared_inferTemporalProperties {options : Options} {units : List CompilationUnit}
    {declared withMembers withProperties : Workspace} {isWanted : Options → Bool}
    (declares : declareUnits.Returns { options, units } () declared)
    (members : declareClassifierMembers.Returns declared () withMembers)
    (temporal : (optionally isWanted inferTemporalProperties).Returns
      withMembers.linkDeclarations () withProperties) :
    withProperties.program.ClausesDeclared ∧ withProperties.options = options := by
  obtain ⟨clauses, -, sameOptions⟩ := untouched_linkDeclarations declares members
  obtain ⟨fragments, infers⟩ := returns_optionally_inferTemporalProperties temporal
  have services : withProperties.program.services =
      withMembers.linkDeclarations.program.services := by
    rw [infers.adds.others]
  rw [Program.ClausesDeclared, ← services] at clauses
  refine ⟨clauses, ?_⟩
  calc withProperties.options = withMembers.options := by rw [infers.adds.surroundings]; rfl
    _ = options := sameOptions

/-- In the end a service has inferred the clause that it would otherwise miss, if clauses are
inferred at all. -/
theorem inferredClauses_analyze {options : Options} {units : List CompilationUnit}
    (returns : analyze.Returns { options, units } () after) {index : ServiceIndex}
    (holds : after.program.services.Holds index) :
    (after.program.services.get index).inferredClauses =
      if options.serviceCriteria then
        (Service.missingClause? after.registry after.program
          (after.program.services.get index).asWritten).toList
      else [] := by
  obtain ⟨declared, withMembers, withProperties, withClauses, declares, members, temporal,
    criteria, rfl⟩ := returns_analyze_iff.mp returns
  obtain ⟨written, sameOptions⟩ := clausesDeclared_inferTemporalProperties declares members temporal
  have infers := returns_optionally_inferServiceCriteria criteria
  obtain ⟨held, inferred, missing⟩ := withClauses.program.inferredClauses_linkReferences
    withClauses.registry holds
  have there : withProperties.program.services.Holds index := by
    simpa [Arena.Holds, infers.size] using held
  have ofWritten : ∀ clause ∈ (withProperties.program.services.get index).clauses,
      clause.inferred = none := by
    rw [written index there]
    simp [Clause.ofDeclaration]
  rw [Workspace.program_reportAll, Workspace.registry_reportAll, Workspace.linkReferences_eq,
    inferred, missing]
  rw [returns_optionally, sameOptions] at criteria
  split at criteria
  · next wanted =>
    obtain ⟨gained, asWritten⟩ :=
      (gains_inferServiceCriteria criteria there).inferredClauses_eq ofWritten
    have same : withClauses.registry = withProperties.registry := by rw [infers.surroundings]
    rw [if_pos wanted, gained, asWritten, same, infers.program]
    rfl
  · next unwanted =>
    subst criteria
    rw [if_neg unwanted, Service.inferredClauses, List.filter_eq_nil_iff.mpr, List.map_nil]
    intro clause member
    simp [ofWritten clause member]

end Phase
end DomainLang
