import DomainLang.Proofs.Compilation

/-!
# Clauses are inferred where they are needed

`Service.Needs` says in terms of what is written which services need a clause: those of a
versioned class whose url takes a version, unless a clause of the kind is written. After an
analysis the clauses of a service are those written, in order, followed by the needed one, and
then nothing is left to infer.
-/

namespace DomainLang

open Resolved

/-- The services that are written in a declaration. -/
def Syntax.Declaration.services : Syntax.Declaration → List Syntax.Service
  | serviceGroup group => group.urls.flatMap (·.services)
  | _ => []

/-- The services that are written in units. -/
def servicesOf (units : List CompilationUnit) : List Syntax.Service :=
  (declarationsOf units).flatMap fun declaration => declaration.2.services

namespace Service

/-- A class that a service is about has a version end, and the url takes a version. -/
structure IsVersioned (registry : Registry) (program : Program) (service : Resolved.Service) :
    Prop where
  versioned : ∃ klass,
    registry.classes.find (className program service).name = .resolved klass ∧
      ∃ associationEnd ∈ program.allAssociationEnds klass,
        (program.associationEnds.get associationEnd).has .version = true
  parameter : ∃ parameter ∈ (program.urls.get service.url).parameters,
    (program.parameters.get parameter).name.name = "version"

/-- The kind of clause that looks at a version: reading selects it and writing must not conflict
with it. -/
inductive LooksAtVersion : Verb → ClauseKind → Prop
  | get : LooksAtVersion .get .version
  | put : LooksAtVersion .put .conflict
  | patch : LooksAtVersion .patch .conflict
  | delete : LooksAtVersion .delete .conflict

/-- A service needs a clause of a kind to look at the version, and none is written. -/
structure Needs (registry : Registry) (program : Program) (service : Resolved.Service)
    (kind : ClauseKind) : Prop extends IsVersioned registry program service where
  looks : LooksAtVersion service.declaration.verb kind
  unwritten : ∀ clause ∈ service.declaration.clauses, clause.kind ≠ kind

theorem exists_versionClause_iff {kind : ClauseKind} (verb : Verb) (versionEnd : String) :
    (∃ clause, versionClause verb versionEnd = some clause ∧ clause.kind = kind) ↔
      LooksAtVersion verb kind := by
  constructor
  · rintro ⟨clause, made, rfl⟩
    cases verb <;> cases made <;> constructor
  · rintro (_ | _ | _ | _) <;> exact ⟨_, rfl, rfl⟩

theorem takesVersion_iff {program : Program} {url : Url} :
    takesVersion program url = true ↔ ∃ parameter ∈ url.parameters,
      (program.parameters.get parameter).name.name = "version" := by
  simp only [takesVersion, List.any_eq_true, decide_eq_true_eq]
  rfl

/-- What makes a clause of a kind missing. -/
theorem exists_missingClause?_iff (registry : Registry) (program : Program)
    (service : Resolved.Service) (kind : ClauseKind) :
    (∃ clause, missingClause? registry program service = some clause ∧ clause.kind = kind) ↔
      IsVersioned registry program service ∧ LooksAtVersion service.declaration.verb kind ∧
        service.hasClause kind = false := by
  simp only [missingClause?, Option.bind_eq_bind, Option.bind_eq_some_iff,
    Resolution.value?_eq_some]
  constructor
  · rintro ⟨clause, ⟨klass, found, versionEnd, isVersion, made, isMade, asked⟩, rfl⟩
    split at asked
    · next wanted =>
      obtain rfl := Option.some.inj asked
      obtain ⟨takes, unwritten⟩ := Bool.and_eq_true_iff.mp wanted
      have marked := List.find?_some isVersion
      exact ⟨⟨⟨klass, found, versionEnd, List.mem_of_find?_eq_some isVersion, marked⟩,
        takesVersion_iff.mp takes⟩, (exists_versionClause_iff _ _).mp ⟨_, isMade, rfl⟩,
        by simpa using unwritten⟩
    · cases asked
  · rintro ⟨⟨⟨klass, found, associationEnd, among, marked⟩, takes⟩, looks, unwritten⟩
    obtain ⟨versionEnd, isVersion⟩ : ∃ versionEnd, versionEnd? program klass = some versionEnd :=
      Option.isSome_iff_exists.mp (List.find?_isSome.mpr ⟨associationEnd, among, marked⟩)
    obtain ⟨clause, made, rfl⟩ :=
      (exists_versionClause_iff _ (program.endName versionEnd)).mpr looks
    refine ⟨clause, ⟨klass, found, versionEnd, isVersion, clause, made, if_pos ?_⟩, rfl⟩
    rw [takesVersion_iff.mpr takes, unwritten]
    rfl

end Service

namespace Resolved.Service

/-- The clauses of a service with where they come from: those written in order, then an
inferred one if any. -/
def ClausesInOrder (service : Service) (inferred : Option Syntax.Clause) : Prop :=
  service.clauses.map (fun clause => (clause.declaration, clause.inferred)) =
    service.declaration.clauses.map (·, none) ++
      inferred.toList.map (·, some .serviceCriteria)

variable {service : Service}

theorem exists_clausesInOrder (written : Program.ClausesWritten service) :
    ∃ inferred, service.ClausesInOrder inferred := by
  obtain ⟨inferred, clauses, each⟩ := written
  refine ⟨inferred.map (·.declaration), ?_⟩
  have viewed := congrArg (List.map fun clause : Clause => (clause.declaration, clause.inferred))
    clauses
  rw [List.map_map, List.map_append, List.map_map] at viewed
  refine viewed.trans (congrArg _ ?_)
  cases inferred with
  | none => rfl
  | some clause =>
    have added : clause.inferred = some .serviceCriteria := (each clause rfl).1
    simp [added]

variable {inferred : Option Syntax.Clause} (inOrder : service.ClausesInOrder inferred)
include inOrder

/-- The inferred clause comes last. -/
theorem ClausesInOrder.inferredClauses_eq :
    service.inferredClauses = inferred.toList.map Syntax.Clause.stripped := by
  have picked := congrArg (fun clauses : List (Syntax.Clause × Option Inference) =>
    (clauses.filter (·.2.isSome)).map (·.1.stripped)) inOrder
  simpa [List.filter_map, Function.comp_def, inferredClauses] using picked

/-- The other clauses are those written. -/
theorem ClausesInOrder.hasClause_asWritten (kind : ClauseKind) :
    service.asWritten.hasClause kind = false ↔
      ∀ clause ∈ service.declaration.clauses, clause.kind ≠ kind := by
  have picked := congrArg (fun clauses : List (Syntax.Clause × Option Inference) =>
    (clauses.filter (·.2.isNone)).map (·.1)) inOrder
  have written : (service.clauses.filter (·.inferred.isNone)).map (·.declaration) =
      service.declaration.clauses := by
    simpa [List.filter_map, Function.comp_def] using picked
  rw [← written, List.forall_mem_map]
  simp only [hasClause, asWritten, List.any_eq_false, decide_eq_true_eq]
  rfl

/-- A service has a clause of a kind when one is written or inferred. -/
theorem ClausesInOrder.hasClause_iff (kind : ClauseKind) :
    service.hasClause kind = false ↔
      (∀ clause ∈ service.declaration.clauses, clause.kind ≠ kind) ∧
        ∀ clause ∈ inferred, clause.kind ≠ kind := by
  have clauses : service.clauses.map (·.declaration) =
      service.declaration.clauses ++ inferred.toList := by
    simpa [Function.comp_def] using congrArg (List.map Prod.fst) inOrder
  have absent : service.hasClause kind = false ↔
      ∀ declaration ∈ service.clauses.map (·.declaration), declaration.kind ≠ kind := by
    rw [List.forall_mem_map]
    simp only [hasClause, List.any_eq_false, decide_eq_true_eq]
    rfl
  rw [absent, clauses, List.forall_mem_append]
  simp only [Option.mem_toList, Option.mem_def]

end Resolved.Service

namespace Phase

variable {options : Options} {units : List CompilationUnit} {after : Workspace}

/-- The records of services are those of the services that are written. -/
theorem mem_servicesOf_iff (returns : analyze.Returns { options, units } () after)
    {declaration : Syntax.Service} :
    declaration ∈ servicesOf units ↔ ∃ index, after.program.services.Holds index ∧
      (after.program.services.get index).declaration = declaration := by
  obtain ⟨analysed, recorded, fragments, linked, rfl⟩ := returns_analyze returns
  change _ ↔ ∃ index, analysed.program.services.Holds index ∧
    (analysed.program.services.get index).declaration = declaration
  have coherent := linked.coherent
  rw [servicesOf, ← linked.written, List.mem_flatMap]
  constructor
  · rintro ⟨_, isWritten, member⟩
    obtain ⟨entry, isRecorded, rfl⟩ := List.mem_map.mp isWritten
    obtain ⟨ordinal, describes⟩ := linked.records.describes_mem isRecorded
    generalize entry.2 = top at describes
    generalize entry.1.2 = element at describes member
    cases describes with
    | serviceGroup holds written holdsUrls urlsWritten =>
      obtain ⟨url, isUrl, member⟩ := List.mem_flatMap.mp member
      rw [← urlsWritten] at isUrl
      obtain ⟨index, listed, rfl⟩ := List.mem_map.mp isUrl
      have held := holdsUrls index listed
      rw [← coherent.servicesWritten index held (by simp)] at member
      obtain ⟨service, isService, rfl⟩ := List.mem_map.mp member
      exact ⟨service, ((coherent.services.mem_listed held (by simp)).mp isService).1, rfl⟩
    | _ => cases member
  · rintro ⟨index, holds, rfl⟩
    have heldUrl := coherent.services.held_owner index holds
    have service := List.mem_map_of_mem
      (f := fun service => (analysed.program.services.get service).declaration)
      ((coherent.services.mem_listed heldUrl (by simp)).mpr ⟨holds, rfl⟩)
    rw [coherent.servicesWritten _ heldUrl (by simp)] at service
    have heldGroup := coherent.urls.held_owner _ heldUrl
    have url := (coherent.urls.mem_listed heldGroup (by simp)).mpr ⟨heldUrl, rfl⟩
    have isTop : TopLevelIndex.serviceGroup _ ∈ recorded.map Prod.snd :=
      linked.records.all.mem_iff.mpr (Program.mem_topLevelByKind.mpr heldGroup)
    obtain ⟨entry, isRecorded, top⟩ := List.mem_map.mp isTop
    obtain ⟨ordinal, describes⟩ := linked.records.describes_mem isRecorded
    refine ⟨entry.1, List.mem_map_of_mem isRecorded, ?_⟩
    rw [top] at describes
    generalize entry.1.2 = element at describes
    cases describes with
    | serviceGroup _ written _ urlsWritten =>
      have urls := congrArg ServiceGroup.urls written
      simp only [ServiceGroup.unlinked] at urls
      rw [urls] at url
      have declared := List.mem_map_of_mem
        (f := fun url => (analysed.program.urls.get url).declaration) url
      rw [urlsWritten] at declared
      exact List.mem_flatMap.mpr ⟨_, declared, service⟩

/-- The clause that was inferred for a service is the one that the service needs. -/
theorem needs_iff_inferred (wanted : options.serviceCriteria = true)
    (returns : analyze.Returns { options, units } () after) {index : ServiceIndex}
    (holds : after.program.services.Holds index) {inferred : Option Syntax.Clause}
    (inOrder : (after.program.services.get index).ClausesInOrder inferred) (kind : ClauseKind) :
    (∃ clause ∈ inferred, clause.kind = kind) ↔
      Service.Needs after.registry after.program (after.program.services.get index) kind := by
  have added := inferredClauses_analyze returns holds
  rw [if_pos wanted, inOrder.inferredClauses_eq, ← Option.toList_map] at added
  have missing : inferred.map Syntax.Clause.stripped = Service.missingClause? after.registry
      after.program (after.program.services.get index).asWritten := by
    simpa using congrArg List.head? added
  have asWritten := Service.exists_missingClause?_iff after.registry after.program
    (after.program.services.get index).asWritten kind
  rw [← missing, inOrder.hasClause_asWritten] at asWritten
  constructor
  · rintro ⟨clause, isInferred, rfl⟩
    obtain ⟨versioned, looks, unwritten⟩ := asWritten.mp
      ⟨clause.stripped, by rw [Option.mem_def.mp isInferred]; rfl, rfl⟩
    exact { versioned := versioned.versioned, parameter := versioned.parameter, looks, unwritten }
  · intro needs
    obtain ⟨_, isStripped, ofKind⟩ := asWritten.mpr
      ⟨⟨needs.versioned, needs.parameter⟩, needs.looks, needs.unwritten⟩
    obtain ⟨clause, isInferred, rfl⟩ := Option.map_eq_some_iff.mp isStripped
    exact ⟨clause, isInferred, ofKind⟩

/-- A service that has got the clause it needs misses none. -/
theorem missingClause?_analyze (wanted : options.serviceCriteria = true)
    (returns : analyze.Returns { options, units } () after) {index : ServiceIndex}
    (holds : after.program.services.Holds index) :
    Service.missingClause? after.registry after.program (after.program.services.get index) =
      none := by
  rw [Option.eq_none_iff_forall_ne_some]
  intro clause missing
  obtain ⟨analysed, recorded, fragments, linked, same⟩ := returns_analyze returns
  have coherent : after.program.Coherent none none := by
    rw [same]
    exact linked.coherent
  obtain ⟨inferred, inOrder⟩ := Service.exists_clausesInOrder (coherent.clauses index holds)
  obtain ⟨versioned, looks, absent⟩ :=
    (Service.exists_missingClause?_iff _ _ _ clause.kind).mp ⟨clause, missing, rfl⟩
  rw [inOrder.hasClause_iff] at absent
  obtain ⟨other, isInferred, ofKind⟩ := (needs_iff_inferred wanted returns holds inOrder _).mpr
    { versioned := versioned.versioned, parameter := versioned.parameter, looks
      unwritten := absent.1 }
  exact absent.2 other isInferred ofKind

/-- Inferring clauses once more does nothing. -/
theorem inferServiceCriteria_idle (wanted : options.serviceCriteria = true)
    (returns : analyze.Returns { options, units } () after) :
    inferServiceCriteria.Returns after () after := by
  simp only [inferServiceCriteria, returns_get_bind]
  apply returns_forM_of_idle
  intro index member
  simp only [inferServiceCriteriaOf, returns_get_bind,
    missingClause?_analyze wanted returns (Arena.mem_indices.mp member)]
  exact returns_pure.mpr ⟨rfl, rfl⟩

end Phase

/-- After every analysis that infers clauses, the services are those written in the units, the
clauses of a service are those written, in order, and then at most one inferred clause, which is
there exactly when the service needs a clause of that kind. Inferring clauses again changes
nothing. -/
theorem analyze_clausesExact {options : Options} {units : List CompilationUnit}
    {after : Workspace} (wanted : options.serviceCriteria = true)
    (analysed : Phase.analyze.perform { options, units } = (.ok (), after)) :
    (∀ declaration, declaration ∈ servicesOf units ↔
      ∃ index, after.program.services.Holds index ∧
        (after.program.services.get index).declaration = declaration) ∧
    (∀ index, after.program.services.Holds index → ∃ inferred,
      (after.program.services.get index).ClausesInOrder inferred ∧
        ∀ kind, (∃ clause ∈ inferred, clause.kind = kind) ↔
          Service.Needs after.registry after.program (after.program.services.get index) kind) ∧
    Phase.inferServiceCriteria.perform after = (.ok (), after) := by
  refine ⟨fun declaration => Phase.mem_servicesOf_iff analysed, fun index holds => ?_,
    Phase.inferServiceCriteria_idle wanted analysed⟩
  obtain ⟨linked, recorded, fragments, known, same⟩ := Phase.returns_analyze analysed
  have coherent : after.program.Coherent none none := by
    rw [same]
    exact known.coherent
  obtain ⟨inferred, inOrder⟩ := Service.exists_clausesInOrder (coherent.clauses index holds)
  exact ⟨inferred, inOrder, Phase.needs_iff_inferred wanted analysed holds inOrder⟩

/-- The service that replaces a document has a criterion and needs a clause about conflicts,
which it gets. -/
theorem analyze_clausesExact_documents :
    ∃ after, Phase.analyze.perform
        { options := {}, units := (SourceSet.ofTrees Sample.trees).units } = (.ok (), after) ∧
      (after.program.services.get ⟨0⟩).clauses.map (·.kind) = [.criteria, .conflict] ∧
      Service.Needs after.registry after.program (after.program.services.get ⟨0⟩) .conflict ∧
      Phase.inferServiceCriteria.perform after = (.ok (), after) := by
  have seen : (Phase.analyze.perform
      { options := {}, units := (SourceSet.ofTrees Sample.trees).units }).map Except.toOption
        (fun after => (after.program.services.size,
          (after.program.services.get ⟨0⟩).clauses.map (·.kind),
          (after.program.services.get ⟨0⟩).declaration.clauses.map (·.kind))) =
      (some (), (1, [.criteria, .conflict], [.criteria])) := by cbv
  obtain ⟨after, analysed, seen⟩ := Phase.exists_returns_of_map_eq seen
  simp only [Prod.mk.injEq] at seen
  obtain ⟨one, kinds, written⟩ := seen
  obtain ⟨-, each, again⟩ := analyze_clausesExact rfl analysed
  obtain ⟨inferred, inOrder, needed⟩ := each ⟨0⟩ (Nat.lt_of_lt_of_eq Nat.zero_lt_one one.symm)
  have split := congrArg (List.map fun clause => clause.1.kind) inOrder
  rw [List.map_map, List.map_append, List.map_map] at split
  have last : [ClauseKind.criteria, .conflict] =
      [.criteria] ++ inferred.toList.map (·.kind) := by
    rw [← written, ← kinds]
    simpa [Function.comp_def, Clause.kind] using split
  refine ⟨after, analysed, kinds, (needed .conflict).mp ?_, again⟩
  cases inferred with
  | none => cases last
  | some clause =>
    simp only [Option.toList_some, List.map_singleton, List.singleton_append, List.cons.injEq] at last
    exact ⟨clause, rfl, last.2.1.symm⟩

end DomainLang
