import DomainLang.Proofs.Coherence
import DomainLang.Proofs.Declaration.Registration

/-!
# Declaring service groups

A service group is declared from the outside in: the group is opened, each of its urls is
opened, gets its parameters and services and is closed, and last the group is closed. The
lemmas follow the same order, and each says what the step returns, which nodes it registers
and what became of the program.
-/

namespace DomainLang

open Resolved

namespace Syntax

/-- The parameter that a segment declares. -/
def UrlSegment.parameters : UrlSegment → List Parameter
  | constant _ => []
  | parameter declaration => [declaration]

theorem Url.parameters_eq (url : Url) :
    url.parameters = url.path.flatMap UrlSegment.parameters ++ url.queryParameters := by
  rw [Url.parameters, List.filterMap_eq_flatMap_toList]
  congr 2
  funext segment
  cases segment <;> rfl

/-- The nodes of a segment that get records are those of its parameters. -/
theorem UrlSegment.recordIds_eq :
    UrlSegment.recordIds = fun segment => segment.parameters.map (·.id) := by
  funext segment
  cases segment <;> rfl

theorem Url.recordIds_eq (url : Url) :
    url.recordIds = [url.id] ++ url.parameters.map (·.id) ++ url.services.map (·.id) := by
  simp [Url.recordIds, Url.parameters_eq, UrlSegment.recordIds_eq, List.map_flatMap]

end Syntax

namespace Program

/-- The program without urls and what belongs to them. -/
def withoutRequests (program : Program) : Program :=
  { program with urls := {}, parameters := {}, services := {} }

/-- Programs that agree apart from urls differ in urls and what belongs to them only. -/
theorem eq_of_withoutRequests {before after : Program}
    (same : after.withoutRequests = before.withoutRequests) :
    after = { before with
      urls := after.urls, parameters := after.parameters, services := after.services } := by
  cases before
  cases after
  simp_all [withoutRequests]

theorem serviceGroups_eq_of_withoutRequests {before after : Program}
    (same : after.withoutRequests = before.withoutRequests) :
    after.serviceGroups = before.serviceGroups := by
  have equal := congrArg Program.serviceGroups same
  exact equal

/-- The clauses of every service are those written. -/
def ClausesDeclared (program : Program) : Prop :=
  ∀ service, program.services.Holds service →
    (program.services.get service).clauses =
      (program.services.get service).declaration.clauses.map
        (Clause.ofDeclaration (program.services.get service).context.unit none)

theorem ClausesDeclared.push {program : Program} (clauses : program.ClausesDeclared)
    {record : Service} (declared : record.clauses = record.declaration.clauses.map
      (Clause.ofDeclaration record.context.unit none)) :
    ({ program with services := program.services.push record } : Program).ClausesDeclared := by
  intro service holds
  rcases Arena.holds_push.mp holds with old | rfl
  · rw [Arena.get_push_of_holds old]
    exact clauses service old
  · rw [Arena.get_push_next]
    exact declared

end Program

namespace Phase

variable {unit : CompilationUnit} {before after : Workspace} {url : UrlIndex}
  {declaration : Syntax.Parameter} {segment : Syntax.UrlSegment} {group : ServiceGroupIndex}

theorem returns_declareParameter {index : ParameterIndex}
    (returns : (declareParameter unit url declaration).Returns before index after) :
    before.Declares unit.id [declaration.id] after ∧
      index = before.program.parameters.next ∧
      after.program = { before.program with
        parameters := before.program.parameters.push
          { url, declaration, context := unit.context declaration.id } } := by
  simp only [declareParameter, returns_get_bind, returns_modifyProgram_bind] at returns
  simp only [returns_bind, returns_pure] at returns
  obtain ⟨_, _, registers, rfl, rfl⟩ := returns
  obtain ⟨declares, program, -⟩ := declares_registerContext registers
  exact ⟨(Workspace.Declares.modifyProgram (.addParameter _)).trans declares, rfl, program⟩

theorem succeeds_declareParameter (fresh : before.registry.Fresh [unit.context declaration.id]) :
    (declareParameter unit url declaration).Succeeds before := by
  simp only [declareParameter, succeeds_get_bind, succeeds_modifyProgram_bind]
  exact .bind (succeeds_registerContext fresh) fun _ _ _ => succeeds_pure ..

/-- The state of a url while its parameters are declared: only parameters were added, and
those listed so far are all parameters of the url. -/
structure ParametersSoFar (unit : UnitId) (group : ServiceGroupIndex) (url : UrlIndex)
    (declarations : List Syntax.Parameter) (listed : List ParameterIndex)
    (start current : Workspace) : Prop where
  declares : start.Declares unit (declarations.map (·.id)) current
  program : current.program =
    { start.program with parameters := current.program.parameters }
  coherent : current.program.Coherent (some group) (some url)
  all : current.program.parameters.select (fun parameter => parameter.url = url) = listed
  written : listed.map (fun parameter =>
    (current.program.parameters.get parameter).declaration) = declarations

namespace ParametersSoFar

variable {group : ServiceGroupIndex} {url : UrlIndex} {declarations : List Syntax.Parameter}
  {listed : List ParameterIndex} {start current following : Workspace}

theorem declareParameter {index : ParameterIndex}
    (soFar : ParametersSoFar unit.id group url declarations listed start current)
    (holds : start.program.urls.Holds url) (inUnit : unit.id = start.program.requestUnit url)
    (returns : (declareParameter unit url declaration).Returns current index following) :
    ParametersSoFar unit.id group url (declarations ++ [declaration]) (listed ++ [index]) start
      following := by
  obtain ⟨declares, rfl, program⟩ := returns_declareParameter returns
  refine ⟨?_, ?_, ?_, ?_, ?_⟩
  · rw [List.map_append]
    exact soFar.declares.trans declares
  · rw [program, soFar.program]
  · rw [program]
    apply soFar.coherent.addParameter _ rfl
    · rw [soFar.program]
      exact inUnit
    · rw [soFar.program]
      exact holds
  · rw [program]
    simp [Arena.select_push, soFar.all]
  · rw [program, List.map_append, ← soFar.written]
    simp only [List.map_cons, List.map_nil, Arena.get_push_next]
    congr 1
    apply List.map_congr_left
    intro parameter member
    rw [← soFar.all, Arena.mem_select] at member
    rw [Arena.get_push_of_holds member.1]

theorem declareSegment {value : UrlSegment}
    (soFar : ParametersSoFar unit.id group url declarations listed start current)
    (holds : start.program.urls.Holds url) (inUnit : unit.id = start.program.requestUnit url)
    (returns : (declareSegment unit url segment).Returns current value following) :
    ParametersSoFar unit.id group url (declarations ++ segment.parameters)
      (listed ++ value.parameter?.toList) start following := by
  cases segment with
  | constant name =>
    simp only [Phase.declareSegment, returns_pure] at returns
    obtain ⟨rfl, rfl⟩ := returns
    simpa [Syntax.UrlSegment.parameters, UrlSegment.parameter?] using soFar
  | parameter declaration =>
    simp only [Phase.declareSegment, returns_bind, returns_pure] at returns
    obtain ⟨index, between, declared, rfl, rfl⟩ := returns
    exact soFar.declareParameter holds inUnit declared

/-- The parameters of a path. -/
theorem declarePath {path : List Syntax.UrlSegment} {values : List UrlSegment}
    (soFar : ParametersSoFar unit.id group url declarations listed start current)
    (holds : start.program.urls.Holds url) (inUnit : unit.id = start.program.requestUnit url)
    (returns : (path.mapM (Phase.declareSegment unit url)).Returns current values following) :
    ParametersSoFar unit.id group url (declarations ++ path.flatMap Syntax.UrlSegment.parameters)
      (listed ++ values.filterMap UrlSegment.parameter?) start following := by
  apply returns.mapM_induction fun visited found state =>
    ParametersSoFar unit.id group url
      (declarations ++ visited.flatMap Syntax.UrlSegment.parameters)
      (listed ++ found.filterMap UrlSegment.parameter?) start state
  · simpa using soFar
  · intro visited found segment rest value state next _ invariant declared
    have step := invariant.declareSegment holds inUnit declared
    cases isParameter : value.parameter? <;>
      simpa [isParameter, List.filterMap_append] using step

/-- The parameters of a query. -/
theorem declareQuery {query : List Syntax.Parameter} {indices : List ParameterIndex}
    (soFar : ParametersSoFar unit.id group url declarations listed start current)
    (holds : start.program.urls.Holds url) (inUnit : unit.id = start.program.requestUnit url)
    (returns : (query.mapM (Phase.declareParameter unit url)).Returns current indices following) :
    ParametersSoFar unit.id group url (declarations ++ query) (listed ++ indices) start
      following := by
  apply returns.mapM_induction fun visited found state =>
    ParametersSoFar unit.id group url (declarations ++ visited) (listed ++ found) start state
  · simpa using soFar
  · intro visited found declaration rest index state next _ invariant declared
    simpa using invariant.declareParameter holds inUnit declared

end ParametersSoFar

/-- Constant segments are kept at their places. -/
theorem map_constant?_declarePath {path : List Syntax.UrlSegment} {values : List UrlSegment}
    (returns : (path.mapM (declareSegment unit url)).Returns before values after) :
    values.map UrlSegment.constant? = path.map Syntax.UrlSegment.constant? := by
  apply returns.mapM_induction fun visited found _ =>
    found.map UrlSegment.constant? = visited.map Syntax.UrlSegment.constant?
  · rfl
  · intro visited found segment rest value current following _ soFar declared
    rw [List.map_append, List.map_append, soFar]
    cases segment with
    | constant name =>
      simp only [declareSegment, returns_pure] at declared
      rw [declared.1]
      rfl
    | parameter declaration =>
      simp only [declareSegment, returns_bind, returns_pure] at declared
      obtain ⟨index, between, -, rfl, -⟩ := declared
      rfl

theorem returns_declareService {declaration : Syntax.Service} {index : ServiceIndex}
    (returns : (declareService unit url declaration).Returns before index after) :
    before.Declares unit.id [declaration.id] after ∧ index = before.program.services.next ∧
      after.program = { before.program with
        services := before.program.services.push
          { url, declaration, context := unit.context declaration.id
            clauses := declaration.clauses.map (Clause.ofDeclaration unit.id none) } } := by
  simp only [declareService, declareClauses, returns_get_bind,
    returns_modifyProgram_bind] at returns
  simp only [returns_bind, returns_modifyProgram, returns_pure] at returns
  obtain ⟨_, registered, registers, _, _, rfl, rfl, rfl⟩ := returns
  obtain ⟨declares, program, -⟩ := declares_registerContext registers
  have final : ({ registered.program with
      services := registered.program.services.modify before.program.services.next fun record =>
        { record with
          clauses := record.clauses ++ declaration.clauses.map
            (Clause.ofDeclaration unit.id none) } } : Program) =
      { before.program with
        services := before.program.services.push
          { url, declaration, context := unit.context declaration.id
            clauses := declaration.clauses.map (Clause.ofDeclaration unit.id none) } } := by
    rw [program]
    simp only [Workspace.modifyProgram, Arena.modify_push_next]
    rfl
  have started : before.Declares unit.id [declaration.id] registered :=
    (Workspace.Declares.modifyProgram (.addService _)).trans declares
  refine ⟨started.thenModify ?_, rfl, final⟩
  exact final ▸ .addService _

theorem succeeds_declareService {declaration : Syntax.Service}
    (fresh : before.registry.Fresh [unit.context declaration.id]) :
    (declareService unit url declaration).Succeeds before := by
  simp only [declareService, declareClauses, succeeds_get_bind, succeeds_modifyProgram_bind]
  refine .bind (succeeds_registerContext fresh) fun _ _ _ => ?_
  exact succeeds_modifyProgram_bind.mpr (succeeds_pure ..)

/-- The state of a url while its services are declared. -/
structure ServicesSoFar (unit : UnitId) (group : ServiceGroupIndex) (url : UrlIndex)
    (declarations : List Syntax.Service) (listed : List ServiceIndex)
    (start current : Workspace) : Prop where
  declares : start.Declares unit (declarations.map (·.id)) current
  program : current.program = { start.program with services := current.program.services }
  coherent : current.program.Coherent (some group) (some url)
  all : current.program.services.select (fun service => service.url = url) = listed
  written : listed.map (fun service => (current.program.services.get service).declaration) =
    declarations
  clauses : start.program.ClausesDeclared → current.program.ClausesDeclared

/-- The services of a url. -/
theorem returns_declareServices {declarations : List Syntax.Service} {indices : List ServiceIndex}
    (coherent : before.program.Coherent (some group) (some url))
    (holds : before.program.urls.Holds url) (inUnit : unit.id = before.program.requestUnit url)
    (none : before.program.services.select (fun service => service.url = url) = [])
    (returns : (declarations.mapM (declareService unit url)).Returns before indices after) :
    ServicesSoFar unit.id group url declarations indices before after := by
  apply returns.mapM_induction fun visited found state =>
    ServicesSoFar unit.id group url visited found before state
  · exact ⟨.refl _ _, rfl, coherent, none, rfl, id⟩
  · intro visited found declaration rest index current following _ soFar declared
    obtain ⟨declares, rfl, program⟩ := returns_declareService declared
    refine ⟨?_, ?_, ?_, ?_, ?_, ?_⟩
    · simpa using soFar.declares.trans declares
    · rw [program, soFar.program]
    · rw [program]
      apply soFar.coherent.addService _ rfl ⟨.none, ?_, by simp⟩
      · rw [soFar.program]
        exact inUnit
      · rw [soFar.program]
        exact holds
      · simp [Clause.unlinked, Clause.ofDeclaration, CompilationUnit.context]
    · rw [program]
      simp [Arena.select_push, soFar.all]
    · rw [program, List.map_append, ← soFar.written]
      simp only [List.map_cons, List.map_nil, Arena.get_push_next]
      congr 1
      apply List.map_congr_left
      intro service member
      rw [← soFar.all, Arena.mem_select] at member
      rw [Arena.get_push_of_holds member.1]
    · intro started
      rw [program]
      exact (soFar.clauses started).push rfl

/-- The state of a url when its parameters and services are declared. The record still stands as
it was opened; `closed` is what it becomes. -/
structure UrlFilled (unit : UnitId) (closed : Url) (start current : Workspace) : Prop where
  declares : start.Declares unit closed.declaration.recordIds current
  program : current.program = { start.program with
    urls := start.program.urls.push
      { group := closed.group, declaration := closed.declaration, context := closed.context }
    parameters := current.program.parameters
    services := current.program.services }
  coherent : current.program.Coherent (some closed.group) (some start.program.urls.next)
  allParameters : current.program.parameters.select
    (fun parameter => parameter.url = start.program.urls.next) = closed.parameters
  allServices : current.program.services.select
    (fun service => service.url = start.program.urls.next) = closed.services
  pathWritten : Program.PathWritten closed
  parametersWritten : closed.parameters.map (fun parameter =>
    (current.program.parameters.get parameter).declaration) = closed.declaration.parameters
  servicesWritten : closed.services.map (fun service =>
    (current.program.services.get service).declaration) = closed.declaration.services
  clauses : start.program.ClausesDeclared → current.program.ClausesDeclared

namespace UrlFilled

variable {declaration : Syntax.Url} {opened afterPath afterQuery afterServices : Workspace}
  {path : List UrlSegment} {query : List ParameterIndex} {services : List ServiceIndex}

/-- Declaring the path, the query and the services of a url that was opened fills it. -/
theorem of_returns (coherent : before.program.Coherent (some group) none)
    (holds : before.program.serviceGroups.Holds group)
    (inUnit : unit.id = (before.program.serviceGroups.get group).header.unit)
    (started : before.Declares unit.id [declaration.id] opened)
    (opens : opened.program = { before.program with
      urls := before.program.urls.push
        { group, declaration, context := unit.context declaration.id } })
    (segments : (declaration.path.mapM (declareSegment unit before.program.urls.next)).Returns
      opened path afterPath)
    (parameters : (declaration.queryParameters.mapM
      (declareParameter unit before.program.urls.next)).Returns afterPath query afterQuery)
    (declaredServices : (declaration.services.mapM
      (declareService unit before.program.urls.next)).Returns afterQuery services afterServices) :
    UrlFilled unit.id
      { group, declaration, context := unit.context declaration.id, path,
        queryParameters := query, services } before afterServices := by
  have openedHolds : opened.program.urls.Holds before.program.urls.next := by
    rw [opens]
    exact Arena.holds_push_next ..
  have openedUnit : unit.id = opened.program.requestUnit before.program.urls.next := by
    rw [opens, Program.requestUnit, Arena.get_push_next]
    exact inUnit
  have noneYet : ParametersSoFar unit.id group before.program.urls.next [] [] opened opened := by
    refine ⟨.refl _ _, rfl, ?_, ?_, rfl⟩
    · rw [opens]
      exact coherent.addUrl holds rfl rfl rfl
    · rw [opens]
      exact coherent.parameters.select_eq_nil (Arena.not_holds_next _)
  have soFar := (noneYet.declarePath openedHolds openedUnit segments).declareQuery openedHolds
    openedUnit parameters
  rw [List.nil_append, List.nil_append, ← Syntax.Url.parameters_eq] at soFar
  have served : ServicesSoFar unit.id group before.program.urls.next declaration.services services
      afterQuery afterServices := by
    apply returns_declareServices soFar.coherent _ _ _ declaredServices
    · rw [soFar.program]
      exact openedHolds
    · rw [soFar.program]
      exact openedUnit
    · rw [soFar.program, opens]
      exact coherent.services.select_eq_nil (Arena.not_holds_next _)
  have sameParameters : afterServices.program.parameters = afterQuery.program.parameters := by
    rw [served.program]
  refine ⟨?_, ?_, served.coherent, ?_, served.all, map_constant?_declarePath segments, ?_,
    served.written, fun earlier => served.clauses ?_⟩
  · rw [Syntax.Url.recordIds_eq]
    exact (started.trans soFar.declares).trans served.declares
  · rw [served.program, soFar.program, opens]
  · rw [sameParameters, soFar.all]
    rfl
  · rw [sameParameters]
    exact soFar.written
  · rw [soFar.program, opens]
    exact earlier

variable {closed : Url} {start current : Workspace}
  (filled : UrlFilled unit.id closed start current)
include filled

/-- Closing the url replaces the record that was added. -/
theorem urls_eq : (current.program.urls.modify start.program.urls.next fun record =>
    { record with
      path := closed.path, queryParameters := closed.queryParameters,
      services := closed.services }) = start.program.urls.push closed := by
  rw [filled.program, Arena.modify_push_next]

/-- A program is coherent when the url is closed. -/
theorem coherent_close : ({ current.program with
    urls := start.program.urls.push closed } : Program).Coherent (some closed.group) none := by
  have atIndex : current.program.urls.get start.program.urls.next =
      { group := closed.group, declaration := closed.declaration, context := closed.context } := by
    rw [filled.program, Arena.get_push_next]
  rw [← filled.urls_eq]
  apply filled.coherent.closeUrl
  · rw [filled.program]
    exact Arena.holds_push_next ..
  · intro _
    rfl
  · rw [atIndex, filled.allParameters]
  · rw [atIndex, filled.allServices]
  · rw [atIndex]
    exact filled.pathWritten
  · rw [atIndex]
    exact filled.parametersWritten
  · rw [atIndex]
    exact filled.servicesWritten

end UrlFilled

/-- A url is declared with its parameters and services. -/
theorem returns_declareUrl {declaration : Syntax.Url} {index : UrlIndex}
    (coherent : before.program.Coherent (some group) none)
    (holds : before.program.serviceGroups.Holds group)
    (inUnit : unit.id = (before.program.serviceGroups.get group).header.unit)
    (returns : (declareUrl unit group declaration).Returns before index after) :
    before.Declares unit.id declaration.recordIds after ∧ index = before.program.urls.next ∧
      after.program.Coherent (some group) none ∧
      after.program.withoutRequests = before.program.withoutRequests ∧
      (before.program.ClausesDeclared → after.program.ClausesDeclared) ∧
      ∃ record : Url, record.group = group ∧ record.declaration = declaration ∧
        after.program.urls = before.program.urls.push record := by
  simp only [declareUrl, returns_get_bind, returns_modifyProgram_bind] at returns
  simp only [returns_bind, returns_modifyProgram, returns_pure] at returns
  obtain ⟨_, opened, registers, path, afterPath, segments, query, afterQuery, parameters,
    services, afterServices, declaredServices, _, _, rfl, rfl, rfl⟩ := returns
  obtain ⟨registered, opens, -⟩ := declares_registerContext registers
  have started : before.Declares unit.id [declaration.id] opened :=
    (Workspace.Declares.modifyProgram (.addUrl _)).trans registered
  have filled :=
    UrlFilled.of_returns coherent holds inUnit started opens segments parameters declaredServices
  refine ⟨filled.declares.thenModify ?_, rfl, ?_, ?_, filled.clauses, _, rfl, rfl, filled.urls_eq⟩
  · -- Only the url that was added is changed, so the urls there were are kept.
    exact { filled.declares.keeps with
      urls := by
        rw [filled.urls_eq]
        exact (Arena.Keeps.refl _).push _ }
  · rw [Workspace.modifyProgram, filled.urls_eq]
    exact filled.coherent_close
  · change { afterServices.program.withoutRequests with urls := {} } = _
    rw [filled.program]
    rfl

theorem succeeds_declareSegment
    (fresh : before.registry.Fresh (segment.recordIds.map unit.context)) :
    (declareSegment unit url segment).Succeeds before := by
  cases segment with
  | constant name => exact succeeds_pure ..
  | parameter declaration =>
    exact .bind (succeeds_declareParameter fresh) fun _ _ _ => succeeds_pure ..

theorem grows_declareSegment {value : UrlSegment}
    (returns : (declareSegment unit url segment).Returns before value after) :
    before.Grows (segment.recordIds.map unit.context) after := by
  cases segment with
  | constant name =>
    simp only [declareSegment, returns_pure] at returns
    obtain ⟨-, rfl⟩ := returns
    exact .refl _
  | parameter declaration =>
    simp only [declareSegment, returns_bind, returns_pure] at returns
    obtain ⟨index, between, declared, -, rfl⟩ := returns
    exact (returns_declareParameter declared).1.toGrows

theorem succeeds_declareUrl {declaration : Syntax.Url}
    (fresh : before.registry.Fresh (declaration.recordIds.map unit.context)) :
    (declareUrl unit group declaration).Succeeds before := by
  have keys : declaration.recordIds.map unit.context = [unit.context declaration.id] ++
      (declaration.path.flatMap (fun segment => segment.recordIds.map unit.context) ++
        (declaration.queryParameters.flatMap (fun parameter => [unit.context parameter.id]) ++
          declaration.services.flatMap fun service => [unit.context service.id])) := by
    simp [Syntax.Url.recordIds, List.map_flatMap, ← List.map_eq_flatMap, Function.comp_def]
  rw [keys] at fresh
  simp only [declareUrl, succeeds_get_bind, succeeds_modifyProgram_bind]
  refine .bind (succeeds_registerContext fresh.left) fun _ opened registers => ?_
  have started : before.Declares unit.id [declaration.id] opened :=
    (Workspace.Declares.modifyProgram (.addUrl _)).trans (declares_registerContext registers).1
  have afterUrl := fresh.right started.toGrows
  refine .bind ?_ fun path afterPath segments => ?_
  · exact succeeds_mapM (fun _ => True) trivial afterUrl.left
      (fun _ _ _ _ new => succeeds_declareSegment new)
      fun _ _ _ _ _ _ returns => ⟨grows_declareSegment returns, trivial⟩
  have pathFresh := afterUrl.right (grows_mapM (fun _ _ _ _ => grows_declareSegment) segments)
  refine .bind ?_ fun query afterQuery parameters => ?_
  · exact succeeds_mapM (fun _ => True) trivial pathFresh.left
      (fun _ _ _ _ new => succeeds_declareParameter new)
      fun _ _ _ _ _ _ returns => ⟨(returns_declareParameter returns).1.toGrows, trivial⟩
  have queryFresh := pathFresh.right
    (grows_mapM (fun _ _ _ _ returns => (returns_declareParameter returns).1.toGrows) parameters)
  refine .bind ?_ fun services afterServices _ => ?_
  · exact succeeds_mapM (fun _ => True) trivial queryFresh
      (fun _ _ _ _ new => succeeds_declareService new)
      fun _ _ _ _ _ _ returns => ⟨(returns_declareService returns).1.toGrows, trivial⟩
  exact succeeds_modifyProgram_bind.mpr (succeeds_pure ..)

/-- The state of a service group while its urls are declared. -/
structure UrlsSoFar (unit : UnitId) (group : ServiceGroupIndex) (declarations : List Syntax.Url)
    (listed : List UrlIndex) (start current : Workspace) : Prop where
  declares : start.Declares unit (declarations.flatMap Syntax.Url.recordIds) current
  program : current.program.withoutRequests = start.program.withoutRequests
  coherent : current.program.Coherent (some group) none
  all : current.program.urls.select (fun url => url.group = group) = listed
  written : listed.map (fun url => (current.program.urls.get url).declaration) = declarations
  clauses : start.program.ClausesDeclared → current.program.ClausesDeclared

/-- The urls of a service group. -/
theorem returns_declareUrls {declarations : List Syntax.Url} {indices : List UrlIndex}
    (coherent : before.program.Coherent (some group) none)
    (holds : before.program.serviceGroups.Holds group)
    (inUnit : unit.id = (before.program.serviceGroups.get group).header.unit)
    (none : before.program.urls.select (fun url => url.group = group) = [])
    (returns : (declarations.mapM (declareUrl unit group)).Returns before indices after) :
    UrlsSoFar unit.id group declarations indices before after := by
  apply returns.mapM_induction fun visited found state =>
    UrlsSoFar unit.id group visited found before state
  · exact ⟨.refl _ _, rfl, coherent, none, rfl, id⟩
  · intro visited found declaration rest index current following _ soFar declared
    have groups := Program.serviceGroups_eq_of_withoutRequests soFar.program
    obtain ⟨declares, rfl, keptCoherent, program, clauses, record, inGroup, ofDeclaration, urls⟩ :=
      returns_declareUrl soFar.coherent (groups ▸ holds) (groups ▸ inUnit) declared
    refine ⟨?_, program.trans soFar.program, keptCoherent, ?_, ?_, clauses ∘ soFar.clauses⟩
    · simpa using soFar.declares.trans declares
    · rw [urls]
      simp [Arena.select_push, inGroup, soFar.all]
    · rw [urls, List.map_append, ← soFar.written]
      simp only [List.map_cons, List.map_nil, Arena.get_push_next, ofDeclaration]
      congr 1
      apply List.map_congr_left
      intro url member
      rw [← soFar.all, Arena.mem_select] at member
      rw [Arena.get_push_of_holds member.1]

/-- A service group is declared with its urls. -/
theorem returns_declareServiceGroup {header : Header} {declaration : Syntax.ServiceGroup}
    {index : TopLevelIndex} (coherent : before.program.Coherent none none)
    (inUnit : unit.id = header.unit)
    (returns : (declareServiceGroup unit header declaration).Returns before index after) :
    before.Declares unit.id (declaration.urls.flatMap Syntax.Url.recordIds) after ∧
      index = .serviceGroup before.program.serviceGroups.next ∧
      after.program.Coherent none none ∧
      (before.program.ClausesDeclared → after.program.ClausesDeclared) ∧
      ∃ urls : List UrlIndex,
        after.program.withoutRequests =
          { before.program.withoutRequests with
            serviceGroups := before.program.serviceGroups.push
              { header, className := declaration.target, urls } } ∧
        urls.map (fun url => (after.program.urls.get url).declaration) = declaration.urls := by
  simp only [declareServiceGroup, returns_get_bind, returns_modifyProgram_bind] at returns
  simp only [returns_bind, returns_modifyProgram, returns_pure] at returns
  obtain ⟨urls, declared, declaredUrls, _, _, rfl, rfl, rfl⟩ := returns
  let record : ServiceGroup := { header, className := declaration.target }
  let index := before.program.serviceGroups.next
  let opened := before.modifyProgram fun program =>
    { program with serviceGroups := program.serviceGroups.push record }
  have soFar : UrlsSoFar unit.id index declaration.urls urls opened declared := by
    apply returns_declareUrls _ _ _ _ declaredUrls
    · exact (coherent.addServiceGroup rfl).openServiceGroup index
    · exact Arena.holds_push_next ..
    · change unit.id = ((before.program.serviceGroups.push record).get index).header.unit
      rw [Arena.get_push_next]
      exact inUnit
    · exact coherent.urls.select_eq_nil (Arena.not_holds_next _)
  have groups : declared.program.serviceGroups = before.program.serviceGroups.push record :=
    Program.serviceGroups_eq_of_withoutRequests soFar.program
  have closedGroups : (declared.program.serviceGroups.modify index fun record =>
      { record with urls }) = before.program.serviceGroups.push { record with urls } := by
    rw [groups, Arena.modify_push_next]
  have declares : before.Declares unit.id (declaration.urls.flatMap Syntax.Url.recordIds)
      declared := (Workspace.Declares.modifyProgram (.addServiceGroup record)).trans soFar.declares
  refine ⟨?_, rfl, ?_, soFar.clauses, urls, ?_, soFar.written⟩
  · apply declares.thenModify
    exact { declares.keeps with
      serviceGroups := by
        rw [closedGroups]
        exact (Arena.Keeps.refl _).push _ }
  · apply soFar.coherent.closeServiceGroup
    · rw [groups]
      exact Arena.holds_push_next ..
    · exact soFar.all.symm
  · have replaced : ({ declared.program with
        serviceGroups := declared.program.serviceGroups.modify index fun record =>
          { record with urls } } : Program).withoutRequests =
        { declared.program.withoutRequests with
          serviceGroups := before.program.serviceGroups.push { record with urls } } := by
      rw [← closedGroups]
      rfl
    exact replaced.trans (by rw [soFar.program]; rfl)

/-- A service group is declared whenever its nodes are new. -/
theorem succeeds_declareServiceGroup {header : Header} {declaration : Syntax.ServiceGroup}
    (coherent : before.program.Coherent none none) (inUnit : unit.id = header.unit)
    (fresh : before.registry.Fresh
      ((declaration.urls.flatMap Syntax.Url.recordIds).map unit.context)) :
    (declareServiceGroup unit header declaration).Succeeds before := by
  simp only [declareServiceGroup, succeeds_get_bind, succeeds_modifyProgram_bind]
  refine .bind ?_ fun urls declared _ => succeeds_modifyProgram_bind.mpr (succeeds_pure ..)
  rw [List.map_flatMap] at fresh
  let index := before.program.serviceGroups.next
  let record : ServiceGroup := { header, className := declaration.target }
  apply succeeds_mapM fun current => current.program.Coherent (some index) none ∧
    current.program.serviceGroups = before.program.serviceGroups.push record
  · exact ⟨(coherent.addServiceGroup rfl).openServiceGroup index, rfl⟩
  · exact fresh
  · intro url _ current _ new
    exact succeeds_declareUrl new
  · intro url _ current value following ⟨opened, groups⟩ returns
    have holds : current.program.serviceGroups.Holds index := by
      rw [groups]
      exact Arena.holds_push_next ..
    have stillInUnit : unit.id = (current.program.serviceGroups.get index).header.unit := by
      rw [groups, Arena.get_push_next]
      exact inUnit
    obtain ⟨declares, -, kept, program, -⟩ := returns_declareUrl opened holds stillInUnit returns
    exact ⟨declares.toGrows, kept,
      (Program.serviceGroups_eq_of_withoutRequests program).trans groups⟩

end Phase
end DomainLang
