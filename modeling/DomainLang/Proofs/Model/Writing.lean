import DomainLang.Proofs.Links.Words
import DomainLang.Proofs.Model.Typing

/-!
# Writing models back

A model has ids where a source file has names. Putting the name of the record in the place of
each id gives back syntax trees without ids and places of nodes. Assembling a well-typed tree
and writing the result gives the words of the tree.
-/

namespace DomainLang

namespace DomainModel

open Model

/-- A path from the object at hand, as it is written. -/
def writeThisPath (model : DomainModel) (path : MemberPath) : Syntax.ThisPath where
  toNode := .bare
  hops := path.hops.map fun hop => .bare (model.parts.associationEnd hop).name
  member := .bare (model.parts.property path.property).name

/-- A path from its classifier, as it is written. -/
def writeTypePath (model : DomainModel) (path : MemberPath) : Syntax.TypePath where
  toNode := .bare
  classifier := .bare (model.classifierName path.classifier)
  hops := path.hops.map fun hop => .bare (model.parts.associationEnd hop).name
  member := .bare (model.parts.property path.property).name

def writeValue (model : DomainModel) : Value → Syntax.Value
  | .thisMember path => .thisMember (model.writeThisPath path)
  | .typeMember path => .typeMember (model.writeTypePath path)
  | .variable parameter => .named (model.parts.parameter parameter).name
  | .literal constant => .ofLiteral constant
  | .literals constants => .ofLiterals constants
  | .user => .user .bare

def writeCriteria (model : DomainModel) : Criteria → Syntax.Criteria
  | .all => .everything
  | .and left right => .both (model.writeCriteria left) (model.writeCriteria right)
  | .or left right => .either (model.writeCriteria left) (model.writeCriteria right)
  | .operator source comparison target =>
    .compare comparison (model.writeValue source) (model.writeValue target)
  | .edgePoint path => .edgePoint .bare (model.writeThisPath path)

def writeOrderBy (model : DomainModel) (ordering : OrderBy) : Syntax.OrderBy where
  toNode := .bare
  members := ordering.members.map fun member =>
    ⟨.bare, model.writeThisPath member.path, member.direction⟩

/-- The name of what a reference navigates along. -/
def referenceName (model : DomainModel) : Reference → String
  | .associationEnd id => (model.parts.associationEnd id).name
  | .signature id => (model.parts.endSignature id).name

mutual

def writeElement (model : DomainModel) : ProjectionElement → Syntax.ProjectionElement
  | .property _ header id => .property .bare (.bare (model.parts.property id).name) header
  | .reference _ reference children =>
    .reference .bare (.bare (model.referenceName reference)) (model.writeElements children)
  | .projection _ reference id =>
    .projection .bare (.bare (model.referenceName reference))
      (.bare (model.parts.projection id).info.name)

/-- The elements of a projection, as they are written. -/
def writeElements (model : DomainModel) : List ProjectionElement → List Syntax.ProjectionElement
  | [] => []
  | element :: rest => model.writeElement element :: model.writeElements rest

end

mutual

/-- The names stored in an element of a projection are those of the records it refers to. -/
def ElementNamed (model : DomainModel) : ProjectionElement → Prop
  | .property name _ id => name = (model.parts.property id).name
  | .reference name reference children =>
    name = model.referenceName reference ∧ model.ElementsNamed children
  | .projection name reference _ => name = model.referenceName reference

/-- The names stored in elements of a projection are those of the records they refer to. -/
def ElementsNamed (model : DomainModel) : List ProjectionElement → Prop
  | [] => True
  | element :: rest => model.ElementNamed element ∧ model.ElementsNamed rest

end

def writeType (model : DomainModel) : DataType → Syntax.PropertyType
  | .primitive type => .primitive type
  | .enumeration id => .enumeration (.bare (model.parts.enumeration id).info.name)

def writeProperty (model : DomainModel) (property : Property) : Syntax.Property :=
  .bare property.name (model.writeType property.dataType) property.optional property.modifiers
    (property.validations.map fun validation => (validation.kind, validation.value))

def writeSignature (model : DomainModel) (signature : EndSignature) : Syntax.EndSignature where
  toNode := .bare
  name := .bare signature.name
  target := .bare (model.classifierName signature.target)
  multiplicity := signature.multiplicity
  modifiers := signature.modifiers.map .bare

def writeEnd (model : DomainModel) (associationEnd : AssociationEnd) : Syntax.AssociationEnd where
  toNode := .bare
  name := .bare associationEnd.name
  target := .bare (model.parts.klass associationEnd.target).info.name
  multiplicity := associationEnd.multiplicity
  modifiers := associationEnd.modifiers.map .bare
  orderBy := associationEnd.orderBy.map model.writeOrderBy

def writeAssociation (model : DomainModel) (association : Association) : Syntax.Association where
  toNode := .bare
  name := .bare association.info.name
  source := model.writeEnd (model.parts.associationEnd association.source)
  target := model.writeEnd (model.parts.associationEnd association.target)
  relationship := model.writeCriteria association.criteria

def writeProjection (model : DomainModel) (projection : Projection) : Syntax.Projection where
  toNode := .bare
  name := .bare projection.info.name
  classifier := .bare (model.classifierName projection.classifier)
  children := model.writeElements projection.children

def writeParameter (model : DomainModel) (parameter : Parameter) : Syntax.Parameter where
  toNode := .bare
  name := .bare parameter.name
  type := model.writeType parameter.dataType
  multiplicity := parameter.multiplicity

def writeSegment (model : DomainModel) : UrlSegment → Syntax.UrlSegment
  | .constant text => .constant (.bare text)
  | .parameter id => .parameter (model.writeParameter (model.parts.parameter id))

def writeClause (model : DomainModel) (clause : Clause) : Syntax.Clause :=
  .bare clause.kind (model.writeCriteria clause.criteria)

/-- A service, as it is written: without the clauses that were inferred. -/
def writeService (model : DomainModel) (service : Service) : Syntax.Service where
  toNode := .bare
  verb := service.verb
  multiplicity := service.multiplicity
  clauses := (service.clauses.filter (! ·.inferred)).map model.writeClause
  projection := service.projection.map fun id => .bare (model.parts.projection id).info.name
  orderBy := service.orderBy.map model.writeOrderBy

def writeUrl (model : DomainModel) (url : Url) : Syntax.Url where
  toNode := .bare
  path := url.path.map model.writeSegment
  queryParameters := url.queryParameters.map fun id =>
    model.writeParameter (model.parts.parameter id)
  services := url.services.map fun id => model.writeService (model.parts.service id)

def writeServiceGroup (model : DomainModel) (group : ServiceGroup) : Syntax.ServiceGroup where
  toNode := .bare
  name := .bare group.info.name
  target := .bare (model.parts.klass group.klass).info.name
  urls := group.urls.map fun id => model.writeUrl (model.parts.url id)

def writeEnumeration (enumeration : Enumeration) : Syntax.Enumeration where
  toNode := .bare
  name := .bare enumeration.info.name
  literals := enumeration.literals.map fun literal =>
    ⟨.bare, .bare literal.name, literal.prettyName⟩

def writeInterface (model : DomainModel) (interface : Interface) : Syntax.Interface where
  toNode := .bare
  name := .bare interface.info.name
  interfaces := interface.interfaces.map fun id => .bare (model.parts.interface id).info.name
  modifiers := interface.modifiers.map .bare
  members := []

/-- A class without its members, as it is written. -/
def writeClass (model : DomainModel) (klass : Model.Class) : Syntax.Class where
  toNode := .bare
  name := .bare klass.info.name
  isUser := klass.isUser
  abstraction := if klass.isAbstract then some ⟨.placeholder, klass.inheritance⟩ else none
  superclass := klass.superclass.map fun id => .bare (model.parts.klass id).info.name
  interfaces := klass.interfaces.map fun id => .bare (model.parts.interface id).info.name
  modifiers := klass.modifiers.map .bare
  members := []

end DomainModel

namespace Assembly.Made

open Allocation (position)

variable {program : Program} {allocation : Allocation} {model : DomainModel}
  (made : Made program allocation model.parts) (covers : allocation.Covers program)
include made covers

theorem propertyName_position {index : PropertyIndex} (holds : program.properties.Holds index) :
    (model.parts.property (position allocation.properties index)).name =
      program.propertyName index :=
  (made.property (covers.properties.mem_iff.mpr holds)).name

theorem endName_position {index : AssociationEndIndex}
    (holds : program.associationEnds.Holds index) :
    (model.parts.associationEnd (position allocation.associationEnds index)).name =
      program.endName index :=
  (made.associationEnd (covers.associationEnds.mem_iff.mpr holds)).name

theorem classifierName_position {index : ClassifierIndex}
    (holds : program.HoldsClassifier index) :
    model.classifierName (allocation.classifierPosition index) =
      (program.classifier index).name := by
  have info := (made.classifier (covers.hasClassifier.mpr holds)).info
  cases index <;> exact congrArg Model.Info.name info

theorem className_position {index : ClassIndex} (holds : program.classes.Holds index) :
    (model.parts.klass (position allocation.classes index)).info.name =
      (program.classes.get index).name :=
  made.classifierName_position covers (show program.HoldsClassifier (.klass index) from holds)

section Paths

variable {this : ClassifierIndex} {parameters : List ParameterIndex}

/-- The hops of a path are written with the names they were found by. -/
theorem write_hops {start last : ClassifierIndex} {hops : List Resolved.Hop}
    {ids : List Model.AssociationEndId} (walks : program.Walks start hops last)
    (assembled : hops.mapM (hop allocation) = .ok ids) :
    ids.map (fun id => Syntax.Identifier.bare (model.parts.associationEnd id).name) =
      hops.map (·.name.stripped) := by
  rw [mapM_eq_ok] at assembled
  induction walks generalizing ids with
  | here classifier =>
    cases assembled
    rfl
  | step found holds called _ _ _ _ ih =>
    cases assembled with
    | cons here onward =>
      simp only [hop, bind_eq_ok, resolved_eq_ok, found, Resolution.resolved.injEq,
        Allocation.idOf_eq_ok] at here
      obtain ⟨_, rfl, -, rfl⟩ := here
      rw [List.map_cons, List.map_cons, ih onward,
        made.endName_position covers holds, called]
      rfl

/-- A path is written with the names it was found by. -/
theorem write_path {start last : ClassifierIndex} {path : Resolved.MemberPath}
    {property : PropertyIndex} {result : Model.MemberPath}
    (typed : program.PathTyped this path start last property)
    (assembled : memberPath allocation path = .ok result) :
    model.writeThisPath result = path.thisPath ∧
      ∀ name, path.origin = .type name → model.writeTypePath result = path.typePath name := by
  simp only [memberPath, bind_eq_ok, pure_eq_ok, resolved_eq_ok, typed.classifier, typed.reaches,
    Resolution.resolved.injEq, Allocation.classifierId_eq_ok, Allocation.idOf_eq_ok] at assembled
  obtain ⟨_, rfl, hops, walked, _, rfl, _, ⟨-, rfl⟩, _, ⟨-, rfl⟩, rfl⟩ := assembled
  have steps := made.write_hops covers typed.walks walked
  have member : (model.parts.property (position allocation.properties property)).name =
      path.member.name := by
    rw [made.propertyName_position covers typed.held,
      Program.propertyName_of_findProperty typed.found]
  refine ⟨?_, fun name origin => ?_⟩
  · rw [DomainModel.writeThisPath, Resolved.MemberPath.thisPath, steps, member]
    rfl
  · have starts := typed.starts
    rw [origin, Program.StartsAt] at starts
    rw [DomainModel.writeTypePath, Resolved.MemberPath.typePath, steps, member,
      made.classifierName_position covers typed.holds, starts]
    rfl

theorem write_thisPath {path : Resolved.MemberPath} {result : Model.MemberPath}
    (typed : program.ThisPathTyped this path)
    (assembled : memberPath allocation path = .ok result) :
    model.writeThisPath result = path.thisPath := by
  obtain ⟨-, last, property, leads⟩ := typed
  exact (made.write_path covers leads assembled).1

theorem write_value {operand : Resolved.Value} {result : Model.Value}
    (typed : program.ValueTyped this parameters operand)
    (assembled : value allocation operand = .ok result) :
    model.writeValue result = operand.words := by
  cases operand with
  | member path =>
    obtain ⟨start, last, property, leads⟩ := typed
    cases origin : path.origin with
    | this =>
      simp only [value, origin, bind_eq_ok, pure_eq_ok] at assembled
      obtain ⟨_, assembledPath, rfl⟩ := assembled
      simp only [DomainModel.writeValue, Resolved.Value.words, origin,
        (made.write_path covers leads assembledPath).1]
    | type name =>
      simp only [value, origin, bind_eq_ok, pure_eq_ok] at assembled
      obtain ⟨_, assembledPath, rfl⟩ := assembled
      simp only [DomainModel.writeValue, Resolved.Value.words, origin,
        (made.write_path covers leads assembledPath).2 name origin]
  | «variable» name parameter =>
    obtain ⟨index, -, rfl, holds, called⟩ := typed
    simp only [value, bind_eq_ok, pure_eq_ok, resolved_eq_ok, Resolution.resolved.injEq,
      Allocation.idOf_eq_ok] at assembled
    obtain ⟨_, rfl, _, ⟨-, rfl⟩, rfl⟩ := assembled
    have record := made.parameter (covers.parameters.mem_iff.mpr holds)
    rw [DomainModel.writeValue, record.name, called]
    rfl
  | literal _ _ | literals _ _ | user _ =>
    cases assembled
    rfl

/-- A condition is written with the words it was found by. -/
theorem write_criteria {condition : Resolved.Criteria} {result : Model.Criteria}
    (typed : program.CriteriaTyped this parameters condition)
    (assembled : criteria allocation condition = .ok result) :
    model.writeCriteria result = condition.words := by
  induction condition generalizing result with
  | all _ =>
    cases assembled
    rfl
  | and left right ihLeft ihRight | or left right ihLeft ihRight =>
    simp only [criteria, bind_eq_ok, pure_eq_ok] at assembled
    obtain ⟨_, assembledLeft, _, assembledRight, rfl⟩ := assembled
    rw [DomainModel.writeCriteria, Resolved.Criteria.words, ihLeft typed.1 assembledLeft,
      ihRight typed.2 assembledRight]
  | operator source _ target _ =>
    simp only [criteria, bind_eq_ok, pure_eq_ok] at assembled
    obtain ⟨_, assembledSource, _, assembledTarget, rfl⟩ := assembled
    rw [DomainModel.writeCriteria, Resolved.Criteria.words,
      made.write_value covers typed.1 assembledSource,
      made.write_value covers typed.2 assembledTarget]
  | edgePoint path _ =>
    simp only [criteria, bind_eq_ok, pure_eq_ok] at assembled
    obtain ⟨_, assembledPath, rfl⟩ := assembled
    rw [DomainModel.writeCriteria, Resolved.Criteria.words,
      made.write_thisPath covers typed assembledPath]

/-- An ordering is written with the words it was found by. -/
theorem write_orderBy {ordering : Option Resolved.OrderBy} {result : Option Model.OrderBy}
    (typed : ∀ written ∈ ordering, ∃ this, program.OrderByTyped this written)
    (assembled : orderBy allocation ordering = .ok result) :
    result.map model.writeOrderBy = ordering.map Resolved.OrderBy.words := by
  cases ordering with
  | none =>
    cases assembled
    rfl
  | some written =>
    simp only [orderBy, bind_eq_ok, pure_eq_ok] at assembled
    obtain ⟨members, madeMembers, rfl⟩ := assembled
    obtain ⟨this, typed⟩ := typed written rfl
    have same : members.map (fun member => (⟨.bare, model.writeThisPath member.path,
          member.direction⟩ : Syntax.OrderByMember)) =
        written.members.map fun member => ⟨.bare, member.path.thisPath, member.direction⟩ := by
      rw [Program.OrderByTyped] at typed
      rw [mapM_eq_ok] at madeMembers
      generalize written.members = sources at madeMembers typed
      induction madeMembers with
      | nil => rfl
      | @cons source _ _ _ here _ ih =>
        simp only [orderByMember, bind_eq_ok, pure_eq_ok] at here
        obtain ⟨_, assembledPath, rfl⟩ := here
        rw [List.forall_mem_cons] at typed
        rw [List.map_cons, List.map_cons, ih typed.2,
          made.write_thisPath covers typed.1.2 assembledPath]
    rw [Option.map_some, Option.map_some, DomainModel.writeOrderBy, Resolved.OrderBy.words, same]

end Paths

/-- A reference has the name it was found by. -/
theorem referenceName_position {current target : ClassifierIndex} {name : String}
    {found : Resolution Resolved.Reference} {index : Resolved.Reference}
    {result : Model.Reference} (leads : program.LeadsTo current name found index target)
    (assembled : reference allocation name found = .ok result) :
    model.referenceName result = name := by
  rw [reference, bind_eq_ok, leads.found] at assembled
  obtain ⟨_, same, assembled⟩ := assembled
  rw [resolved_eq_ok, Resolution.resolved.injEq] at same
  subst same
  have typed := leads.typed
  cases index with
  | associationEnd associationEnd =>
    simp only [bind_eq_ok, pure_eq_ok, Allocation.idOf_eq_ok] at assembled
    obtain ⟨_, ⟨-, rfl⟩, rfl⟩ := assembled
    exact (made.endName_position covers typed.1).trans typed.2.1
  | signature signature =>
    simp only [bind_eq_ok, pure_eq_ok, Allocation.idOf_eq_ok] at assembled
    obtain ⟨_, ⟨member, rfl⟩, rfl⟩ := assembled
    exact (made.endSignature member).name.trans typed.2.1

omit made covers

mutual

/-- An element of a projection is written with the words it was found by. -/
theorem write_element (made : Made program allocation model.parts)
    (covers : allocation.Covers program) (current : ClassifierIndex)
    (element : Resolved.ProjectionElement) (result : Model.ProjectionElement)
    (typed : program.ElementTyped current element)
    (assembled : projectionElement allocation element = .ok result) :
    model.writeElement result = element.words ∧ model.ElementNamed result := by
  cases element with
  | property name header found =>
    rw [Program.ElementTyped] at typed
    obtain ⟨property, rfl, holds, found⟩ := typed
    simp only [projectionElement, bind_eq_ok, pure_eq_ok, resolved_eq_ok,
      Resolution.resolved.injEq, Allocation.idOf_eq_ok] at assembled
    obtain ⟨_, rfl, _, ⟨-, rfl⟩, rfl⟩ := assembled
    have called := (made.propertyName_position covers holds).trans
      (Program.propertyName_of_findProperty found)
    rw [DomainModel.writeElement, Resolved.ProjectionElement.words, DomainModel.ElementNamed,
      called]
    exact ⟨rfl, rfl⟩
  | reference name found children =>
    rw [Program.ElementTyped] at typed
    obtain ⟨reference, target, leads, typedChildren⟩ := typed
    simp only [projectionElement, bind_eq_ok, pure_eq_ok] at assembled
    obtain ⟨_, assembledReference, _, assembledChildren, rfl⟩ := assembled
    have called := made.referenceName_position covers leads assembledReference
    obtain ⟨words, named⟩ :=
      write_elements made covers target children _ typedChildren assembledChildren
    rw [DomainModel.writeElement, Resolved.ProjectionElement.words, DomainModel.ElementNamed,
      called, words]
    exact ⟨rfl, rfl, named⟩
  | projection name found projectionName projection =>
    rw [Program.ElementTyped] at typed
    obtain ⟨reference, target, index, projected, leads, rfl, holds, called, -, -⟩ := typed
    simp only [projectionElement, bind_eq_ok, pure_eq_ok, resolved_eq_ok,
      Resolution.resolved.injEq, Allocation.idOf_eq_ok] at assembled
    obtain ⟨_, rfl, _, assembledReference, _, ⟨member, rfl⟩, rfl⟩ := assembled
    have reached := made.referenceName_position covers leads assembledReference
    have record := congrArg Model.Info.name (made.projection member).info
    rw [DomainModel.writeElement, Resolved.ProjectionElement.words, DomainModel.ElementNamed,
      reached, record]
    exact ⟨congrArg (Syntax.ProjectionElement.projection .bare (.bare name.name) ∘ .bare) called,
      rfl⟩

theorem write_elements (made : Made program allocation model.parts)
    (covers : allocation.Covers program) (current : ClassifierIndex)
    (elements : List Resolved.ProjectionElement) (results : List Model.ProjectionElement)
    (typed : program.ElementsTyped current elements)
    (assembled : projectionElements allocation elements = .ok results) :
    model.writeElements results = Resolved.ProjectionElement.allWords elements ∧
      model.ElementsNamed results := by
  cases elements with
  | nil =>
    rw [projectionElements, pure_eq_ok] at assembled
    rw [← assembled, DomainModel.writeElements, Resolved.ProjectionElement.allWords,
      DomainModel.ElementsNamed]
    exact ⟨rfl, trivial⟩
  | cons element rest =>
    rw [Program.ElementsTyped] at typed
    simp only [projectionElements, bind_eq_ok, pure_eq_ok] at assembled
    obtain ⟨_, assembledFirst, _, assembledRest, rfl⟩ := assembled
    obtain ⟨firstWords, firstNamed⟩ :=
      write_element made covers current element _ typed.1 assembledFirst
    obtain ⟨restWords, restNamed⟩ :=
      write_elements made covers current rest _ typed.2 assembledRest
    rw [DomainModel.writeElements, Resolved.ProjectionElement.allWords, DomainModel.ElementsNamed,
      firstWords, restWords]
    exact ⟨rfl, firstNamed, restNamed⟩

end

end Assembly.Made
end DomainLang
