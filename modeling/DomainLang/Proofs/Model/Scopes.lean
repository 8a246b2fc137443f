import DomainLang.Proofs.Model.Integrity
import DomainLang.Proofs.Model.Typing

/-!
# What criteria and services of a model may use

Variables of a clause are parameters of the url of its service, and a relationship has none.
Lists stand beside `in` only, which in turn asks for a list or a variable. A service has clauses
that its verb allows, and its projection is on the class of the group or a supertype. The
statements about operators hold at every expression, however deep; they are carried over from the
criteria of the program, which have the same shape.
-/

namespace DomainLang

variable {condition : Resolved.Criteria}

namespace Model

namespace Value

/-- The parameter, for an operand that is a variable. -/
def parameter? : Value → Option ParameterId
  | .variable parameter => some parameter
  | _ => none

/-- Whether the operand is a list of literals. -/
def isList : Value → Bool
  | literals _ => true
  | _ => false

end Value

namespace Criteria

/-- The parameters of one expression, without those of its parts. -/
def ownParameters : Criteria → List ParameterId
  | operator source _ target => [source, target].filterMap Value.parameter?
  | all | edgePoint _ | .and _ _ | .or _ _ => []

/-- The parameters that stand anywhere in the criteria. -/
def parameters (criteria : Criteria) : List ParameterId :=
  criteria.expressions.flatMap ownParameters

/-- Lists are operands of `in` only, and `in` has a list or a variable to look in. -/
def OperandsFit : Criteria → Prop
  | operator source comparison target =>
    ((source.isList ∨ target.isList) → comparison = .inList) ∧
      (comparison = .inList → target.isList ∨ target.parameter?.isSome)
  | all | edgePoint _ | .and _ _ | .or _ _ => True

end Criteria
end Model

/-- Criteria, services and groups use nothing that is out of their reach. -/
structure DomainModel.Scoped (model : DomainModel) : Prop where
  /-- A variable of a clause is a parameter of the url of the service. -/
  clauseVariables : ∀ service ∈ model.parts.services, ∀ clause ∈ service.clauses,
    ∀ id ∈ clause.criteria.parameters, id ∈ (model.parts.url service.url).parameters ∧
      (model.parts.parameter id).url = service.url
  closedRelationships : ∀ association ∈ model.parts.associations,
    association.criteria.parameters = []
  allowed : ∀ service ∈ model.parts.services, ∀ clause ∈ service.clauses,
    clause.kind ∈ service.verb.allowedClauses
  clauseOperators : ∀ service ∈ model.parts.services, ∀ clause ∈ service.clauses,
    ∀ expression ∈ clause.criteria.expressions, expression.OperandsFit
  relationshipOperators : ∀ association ∈ model.parts.associations,
    ∀ expression ∈ association.criteria.expressions, expression.OperandsFit
  urls : ∀ group ∈ model.parts.serviceGroups, group.urls ≠ []
  /-- The projection of a service is on the class of the group or on a supertype. -/
  projections : ∀ service ∈ model.parts.services, ∀ id ∈ service.projection,
    model.Inherits (.klass (model.serviceClass service)) (model.parts.projection id).classifier

namespace Assembly

open Allocation (position)

variable {program : Program} {allocation : Allocation}

section Criteria

/-- An operand keeps its form. -/
theorem isList_value {operand : Resolved.Value} {result : Model.Value}
    (assembled : value allocation operand = .ok result) :
    result.isList = operand.isList ∧
      result.parameter?.isSome = operand.parameterUse?.isSome := by
  cases operand with
  | member path =>
    rw [value] at assembled
    split at assembled <;>
    · simp only [bind_eq_ok, pure_eq_ok] at assembled
      obtain ⟨_, -, rfl⟩ := assembled
      exact ⟨rfl, rfl⟩
  | «variable» name parameter =>
    simp only [value, bind_eq_ok, pure_eq_ok] at assembled
    obtain ⟨_, -, _, -, rfl⟩ := assembled
    exact ⟨rfl, rfl⟩
  | literal _ _ | literals _ _ | user _ =>
    cases assembled
    exact ⟨rfl, rfl⟩

/-- A variable becomes the id of a parameter in scope. -/
theorem parameter_value {this : ClassifierIndex} {parameters : List ParameterIndex}
    {operand : Resolved.Value} {result : Model.Value}
    (typed : program.ValueTyped this parameters operand)
    (assembled : value allocation operand = .ok result) {id : Model.ParameterId}
    (isVariable : result.parameter? = some id) :
    ∃ parameter ∈ parameters, position allocation.parameters parameter = id := by
  cases operand with
  | member path =>
    rw [value] at assembled
    split at assembled <;>
    · simp only [bind_eq_ok, pure_eq_ok] at assembled
      obtain ⟨_, -, rfl⟩ := assembled
      cases isVariable
  | «variable» name found =>
    obtain ⟨parameter, inScope, rfl, -, -⟩ := typed
    simp only [value, bind_eq_ok, pure_eq_ok, resolved_eq_ok, Resolution.resolved.injEq,
      Allocation.idOf_eq_ok] at assembled
    obtain ⟨_, rfl, _, ⟨-, rfl⟩, rfl⟩ := assembled
    cases isVariable
    exact ⟨parameter, inScope, rfl⟩
  | literal _ _ | literals _ _ | user _ =>
    cases assembled
    cases isVariable

/-- The variables of criteria become ids of parameters in scope. -/
theorem parameters_criteria {this : ClassifierIndex} {parameters : List ParameterIndex}
    {result : Model.Criteria} (typed : program.CriteriaTyped this parameters condition)
    (assembled : criteria allocation condition = .ok result) :
    ∀ id ∈ result.parameters,
      ∃ parameter ∈ parameters, position allocation.parameters parameter = id := by
  induction condition generalizing result with
  | all _ =>
    cases assembled
    simp [Model.Criteria.parameters, Model.Criteria.expressions, Model.Criteria.ownParameters]
  | and left right inLeft inRight | or left right inLeft inRight =>
    simp only [criteria, bind_eq_ok, pure_eq_ok] at assembled
    obtain ⟨first, assembledLeft, second, assembledRight, rfl⟩ := assembled
    intro id member
    have split : id ∈ first.parameters ∨ id ∈ second.parameters := by
      simpa [Model.Criteria.parameters, Model.Criteria.expressions,
        Model.Criteria.ownParameters] using member
    rcases split with isLeft | isRight
    · exact inLeft typed.1 assembledLeft id isLeft
    · exact inRight typed.2 assembledRight id isRight
  | operator source _ target _ =>
    simp only [criteria, bind_eq_ok, pure_eq_ok] at assembled
    obtain ⟨first, assembledSource, second, assembledTarget, rfl⟩ := assembled
    intro id member
    have split : first.parameter? = some id ∨ second.parameter? = some id := by
      simpa [Model.Criteria.parameters, Model.Criteria.expressions,
        Model.Criteria.ownParameters, List.mem_filterMap] using member
    rcases split with isSource | isTarget
    · exact parameter_value typed.1 assembledSource isSource
    · exact parameter_value typed.2 assembledTarget isTarget
  | edgePoint path _ =>
    simp only [criteria, bind_eq_ok, pure_eq_ok] at assembled
    obtain ⟨_, -, rfl⟩ := assembled
    simp [Model.Criteria.parameters, Model.Criteria.expressions, Model.Criteria.ownParameters]

/-- Where no operator is misused in the program, none is in the model. -/
theorem operandsFit_criteria {unit : UnitId} {result : Model.Criteria}
    (quiet : Quiet (condition.expressions.flatMap (Rules.misusedOperator unit)))
    (assembled : criteria allocation condition = .ok result) :
    ∀ expression ∈ result.expressions, expression.OperandsFit := by
  induction condition generalizing result with
  | all _ =>
    cases assembled
    simp [Model.Criteria.expressions, Model.Criteria.OperandsFit]
  | and left right inLeft inRight | or left right inLeft inRight =>
    simp only [criteria, bind_eq_ok, pure_eq_ok] at assembled
    obtain ⟨first, assembledLeft, second, assembledRight, rfl⟩ := assembled
    simp only [Resolved.Criteria.expressions, List.flatMap_cons, List.flatMap_append,
      Quiet.append] at quiet
    simp only [Model.Criteria.expressions, List.forall_mem_cons, List.forall_mem_append]
    exact ⟨trivial, inLeft quiet.2.1 assembledLeft, inRight quiet.2.2 assembledRight⟩
  | operator source comparison target span =>
    simp only [criteria, bind_eq_ok, pure_eq_ok] at assembled
    obtain ⟨first, assembledSource, second, assembledTarget, rfl⟩ := assembled
    have fits : Rules.isMisused comparison source target = false := by
      rw [← Bool.not_eq_true]
      intro misused
      simp only [Resolved.Criteria.expressions, List.flatMap_singleton, Rules.misusedOperator,
        misused, if_true, Quiet.singleton] at quiet
      cases quiet
    simp only [Model.Criteria.expressions, List.mem_singleton, forall_eq,
      Model.Criteria.OperandsFit, (isList_value assembledSource).1, isList_value assembledTarget]
    rw [Rules.isMisused] at fits
    split at fits
    · next isIn =>
      rw [Bool.not_eq_false_eq_eq_true, Bool.or_eq_true] at fits
      exact ⟨fun _ => isIn, fun _ => fits⟩
    · next isOther =>
      rw [Bool.or_eq_false_iff] at fits
      refine ⟨fun isList => ?_, fun isIn => absurd isIn isOther⟩
      simp [fits] at isList
  | edgePoint path _ =>
    simp only [criteria, bind_eq_ok, pure_eq_ok] at assembled
    obtain ⟨_, -, rfl⟩ := assembled
    simp [Model.Criteria.expressions, Model.Criteria.OperandsFit]

end Criteria
end Assembly

/-- A clause of a model and what it was made of. -/
structure Assembly.ClauseMade (program : Program) (index : ServiceIndex) (clause : Model.Clause)
    (source : Resolved.Clause) (condition : Resolved.Criteria) : Prop where
  among : source ∈ (program.services.get index).clauses
  kind : clause.kind = source.kind
  filled : source.criteria = some condition
  criteria : Assembly.criteria (.ofProgram program) condition = .ok clause.criteria

namespace Workspace.ErrorFree

variable {workspace : Workspace} (free : workspace.ErrorFree)
include free

theorem relationshipOperators {index : AssociationIndex}
    (holds : workspace.program.associations.Holds index)
    (filled : (workspace.program.associations.get index).relationship = some condition) :
    Quiet (condition.expressions.flatMap (Rules.misusedOperator
      (workspace.program.associations.get index).header.unit)) := by
  have rules := free.referencesFound.criteria
  simp only [Rules.criteria, Quiet.append, Quiet.flatMap] at rules
  have ofAssociation := rules.1.1.1 _ (Arena.get_mem_records holds)
  rw [filled, Option.elim_some, Rules.criteriaRules, Quiet.append] at ofAssociation
  exact ofAssociation.2

theorem clauseOperators {index : ServiceIndex} (holds : workspace.program.services.Holds index)
    {clause : Resolved.Clause} (among : clause ∈ (workspace.program.services.get index).clauses)
    (filled : clause.criteria = some condition) :
    Quiet (condition.expressions.flatMap (Rules.misusedOperator clause.unit)) := by
  have rules := free.referencesFound.criteria
  simp only [Rules.criteria, Quiet.append, Quiet.flatMap] at rules
  have ofService := rules.1.1.2 _ (Arena.get_mem_records holds)
  simp only [Rules.serviceCriteria, Quiet.append, Quiet.flatMap] at ofService
  have ofClause := ofService.1 clause among
  rw [filled, Option.elim_some, Rules.criteriaRules, Quiet.append] at ofClause
  exact ofClause.2

theorem urls_ne_nil {index : ServiceGroupIndex}
    (holds : workspace.program.serviceGroups.Holds index) :
    (workspace.program.serviceGroups.get index).urls ≠ [] := by
  have rules := free.referencesFound.services
  simp only [Rules.services, Quiet.flatMap] at rules
  have ofGroup := rules _ (Arena.get_mem_records holds)
  simp only [Rules.groupRules, Quiet.append] at ofGroup
  intro empty
  have reported := ofGroup.1.2
  rw [Rules.emptyGroup, if_pos (by simp [empty]), Quiet.singleton] at reported
  cases reported

theorem clause_allowed (coherent : workspace.program.Coherent none none) {index : ServiceIndex}
    (holds : workspace.program.services.Holds index) {clause : Resolved.Clause}
    (among : clause ∈ (workspace.program.services.get index).clauses) :
    clause.kind ∈ (workspace.program.services.get index).declaration.verb.allowedClauses := by
  have rules := free.referencesFound.services
  simp only [Rules.services, Quiet.flatMap] at rules
  have url := coherent.services.held_owner index holds
  have group := coherent.urls.held_owner _ url
  have ofGroup := rules _ (Arena.get_mem_records group)
  simp only [Rules.groupRules, Quiet.append, Quiet.flatMap] at ofGroup
  have inGroup := (coherent.urls.mem_listed group (by simp)).mpr ⟨url, rfl⟩
  have inUrl := (coherent.services.mem_listed url (by simp)).mpr ⟨holds, rfl⟩
  have ofService := (ofGroup.2 _ (List.mem_map_of_mem inGroup) _ (List.mem_map_of_mem inUrl)).1
  have noneFiltered := ofService.map_eq_nil fun _ => rfl
  rw [List.filter_eq_nil_iff] at noneFiltered
  simpa using noneFiltered clause among

end Workspace.ErrorFree

namespace DomainModel.AssembledFrom

variable {model : DomainModel} {units : List CompilationUnit}
  {recorded : List RecordedDeclaration} {fragments : List CompilationUnit} {workspace : Workspace}
  (assembled : model.AssembledFrom units recorded fragments workspace)
include assembled

theorem exists_clauseMade {service : Model.Service} (member : service ∈ model.parts.services)
    {clause : Model.Clause} (isClause : clause ∈ service.clauses) :
    ∃ index, workspace.program.services.Holds index ∧
      Assembly.ServiceMade workspace.program workspace.allocation index service ∧
      ∃ source condition,
        Assembly.ClauseMade workspace.program index clause source condition := by
  obtain ⟨index, known, rfl⟩ :=
    assembled.made.exists_mem_services assembled.covers.services.nodup member
  have record := assembled.made.service known
  obtain ⟨source, among, assembledClause⟩ :=
    exists_of_mem_right (mapM_eq_ok.mp record.clauses) isClause
  simp only [Assembly.clause, bind_eq_ok, pure_eq_ok, Assembly.filled_eq_ok] at assembledClause
  obtain ⟨condition, filled, result, criteria, rfl⟩ := assembledClause
  exact ⟨index, assembled.covers.services.mem_iff.mp known, record, source, condition,
    ⟨among, rfl, filled, criteria⟩⟩

/-- Variables of clauses are parameters of the url. -/
theorem clause_variables {service : Model.Service} (member : service ∈ model.parts.services)
    {clause : Model.Clause} (isClause : clause ∈ service.clauses) {id : Model.ParameterId}
    (used : id ∈ clause.criteria.parameters) :
    id ∈ (model.parts.url service.url).parameters ∧
      (model.parts.parameter id).url = service.url := by
  obtain ⟨index, holds, record, source, condition, made⟩ :=
    assembled.exists_clauseMade member isClause
  obtain ⟨_, klass, same, -, typed⟩ := assembled.sound.clauses index holds source made.among
  rw [made.filled, Option.some.injEq] at same
  subst same
  obtain ⟨parameter, inScope, rfl⟩ := Assembly.parameters_criteria typed made.criteria id used
  have url := assembled.sound.coherent.services.held_owner index holds
  have listed := (assembled.sound.coherent.parameters.mem_listed url (by simp)).mp inScope
  have urlMade := assembled.made.url (assembled.covers.urls.mem_iff.mpr url)
  have parameterMade :=
    assembled.made.parameter (assembled.covers.parameters.mem_iff.mpr listed.1)
  rw [record.url, urlMade.parameters, parameterMade.url, listed.2]
  exact ⟨List.mem_map_of_mem inScope, rfl⟩

/-- A relationship has no variables, and its operators go with their operands. -/
theorem relationship_scoped {association : Model.Association}
    (member : association ∈ model.parts.associations) :
    association.criteria.parameters = [] ∧
      ∀ expression ∈ association.criteria.expressions, expression.OperandsFit := by
  obtain ⟨index, known, rfl⟩ :=
    assembled.made.exists_mem_associations assembled.covers.associations.nodup member
  have holds := assembled.covers.associations.mem_iff.mp known
  obtain ⟨condition, this, filled, -, typed⟩ := assembled.sound.relationships index holds
  have made := (assembled.made.association known).criteria condition filled
  refine ⟨List.eq_nil_iff_forall_not_mem.mpr fun id used => ?_,
    Assembly.operandsFit_criteria (assembled.free.relationshipOperators holds filled) made⟩
  obtain ⟨_, ⟨⟩, -⟩ := Assembly.parameters_criteria typed made id used

/-- What was assembled of a program without errors uses only what is in reach. -/
theorem model_scoped : model.Scoped where
  clauseVariables _ member _ isClause _ := assembled.clause_variables member isClause
  closedRelationships _ member := (assembled.relationship_scoped member).1
  allowed service member clause isClause := by
    obtain ⟨index, holds, record, source, condition, made⟩ :=
      assembled.exists_clauseMade member isClause
    rw [made.kind, record.verb]
    exact assembled.free.clause_allowed assembled.sound.coherent holds made.among
  clauseOperators service member clause isClause := by
    obtain ⟨index, holds, record, source, condition, made⟩ :=
      assembled.exists_clauseMade member isClause
    exact Assembly.operandsFit_criteria
      (assembled.free.clauseOperators holds made.among made.filled) made.criteria
  relationshipOperators _ member := (assembled.relationship_scoped member).2
  urls group member := by
    obtain ⟨index, known, rfl⟩ := Allocation.exists_mem_made
      assembled.covers.serviceGroups.nodup assembled.made.serviceGroups member
    have record := assembled.made.serviceGroup known
    intro empty
    have none := record.urls.symm.trans empty
    rw [List.map_eq_nil_iff] at none
    exact assembled.free.urls_ne_nil (assembled.covers.serviceGroups.mem_iff.mp known) none
  projections _ member _ projected := assembled.serviceProjection_inherits member projected

end DomainModel.AssembledFrom

/-- In every model that is compiled, criteria, services and groups use only what is in reach. -/
theorem compile_scoped {trees : List (String × Syntax.SourceTree)}
    {configuration : Configuration} {compilation : Compilation} {model : DomainModel}
    (compiled : compile trees configuration = .ok compilation)
    (found : compilation.model = some model) : model.Scoped := by
  obtain ⟨workspace, recorded, fragments, assembled, -⟩ :=
    exists_assembledFrom_of_compile compiled found
  exact assembled.model_scoped

/-- The model of the documents has a service with a clause that is written and one that is
inferred. -/
theorem compile_scoped_documents : ∃ compilation model,
    compile Sample.trees {} = .ok compilation ∧ compilation.model = some model ∧
      model.parts.services.map (·.clauses.length) = [2] ∧ model.Scoped := by
  obtain ⟨compilation, model, compiled, found, -, -, clauses, -⟩ := Sample.compiles
  exact ⟨compilation, model, compiled, found, clauses, compile_scoped compiled found⟩

end DomainLang
