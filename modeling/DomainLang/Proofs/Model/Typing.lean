import DomainLang.Proofs.Model.Hierarchy
import Mathlib.Data.List.Find

/-!
# Models are well typed

A path of a model is well typed when each hop is an end of the class at hand or of one of its
superclasses, the walk goes on at the class that the end leads to, and the last classifier has
the property and finds it under its name. An element of a projection is typed against the
classifier that its parent leads to. These are statements about ids only; they are carried
over from the indices of the program that a model was assembled of.
-/

namespace DomainLang

namespace DomainModel

open Model

/-- The superclass and the interfaces that a classifier names. -/
def parents (model : DomainModel) : ClassifierId → List ClassifierId
  | .interface id => (model.interfaces (.interface id)).map .interface
  | .klass id => (model.parts.klass id).superclass.toList.map .klass ++
      (model.interfaces (.klass id)).map .interface

/-- A classifier is another one or inherits from it. -/
def Inherits (model : DomainModel) : ClassifierId → ClassifierId → Prop :=
  Relation.ReflTransGen fun classifier parent => parent ∈ model.parents classifier

/-- A walk along association ends from one classifier to another. -/
inductive Walks (model : DomainModel) : ClassifierId → List AssociationEndId → ClassifierId → Prop
  | here (classifier : ClassifierId) : Walks model classifier [] classifier
  | step {klass : ClassId} {hop : AssociationEndId} {rest : List AssociationEndId}
      {last : ClassifierId}
      (above : model.isSubclassOf klass (model.parts.associationEnd hop).owner)
      (onward : Walks model (.klass (model.parts.associationEnd hop).target) rest last) :
      Walks model (.klass klass) (hop :: rest) last

/-- A path that leads to a property which the last classifier has and finds by its name. -/
def PathTyped (model : DomainModel) (path : MemberPath) : Prop :=
  ∃ last, model.Walks path.classifier path.hops last ∧ path.property ∈ model.properties last ∧
    model.findProperty last (model.parts.property path.property).name = some path.property

/-- A path that starts at the classifier at hand. -/
def ThisPathTyped (model : DomainModel) (this : ClassifierId) (path : MemberPath) : Prop :=
  path.classifier = this ∧ model.PathTyped path

/-- An operand with a well-typed path, if it has one. -/
def ValueTyped (model : DomainModel) (this : ClassifierId) : Value → Prop
  | .thisMember path => model.ThisPathTyped this path
  | .typeMember path => model.PathTyped path
  | .variable _ | .literal _ | .literals _ | .user => True

/-- Criteria with well-typed paths. -/
def CriteriaTyped (model : DomainModel) (this : ClassifierId) : Criteria → Prop
  | .all => True
  | .and left right | .or left right =>
    model.CriteriaTyped this left ∧ model.CriteriaTyped this right
  | .operator source _ target => model.ValueTyped this source ∧ model.ValueTyped this target
  | .edgePoint path => model.ThisPathTyped this path

/-- An ordering by properties of the classifier itself. -/
def OrderByTyped (model : DomainModel) (this : ClassifierId) (ordering : OrderBy) : Prop :=
  ∀ member ∈ ordering.members, member.path.hops = [] ∧ model.ThisPathTyped this member.path

/-- The classifier that a reference leads to. -/
def referenceTarget (model : DomainModel) : Reference → ClassifierId
  | .associationEnd id => .klass (model.parts.associationEnd id).target
  | .signature id => (model.parts.endSignature id).target

/-- An end of the class at hand or of a superclass, or a signature of the classifier itself. -/
def ReferenceTyped (model : DomainModel) (current : ClassifierId) : Reference → Prop
  | .associationEnd id => ∃ klass, current = .klass klass ∧
      model.isSubclassOf klass (model.parts.associationEnd id).owner
  | .signature id => (model.parts.endSignature id).owner = current

mutual

def ElementTyped (model : DomainModel) (current : ClassifierId) : ProjectionElement → Prop
  | .property _ _ id => id ∈ model.properties current
  | .reference _ reference children => model.ReferenceTyped current reference ∧
      ElementsTyped model (model.referenceTarget reference) children
  | .projection _ reference id => model.ReferenceTyped current reference ∧
      model.Inherits (model.referenceTarget reference) (model.parts.projection id).classifier

/-- Elements of a projection on a classifier. -/
def ElementsTyped (model : DomainModel) (current : ClassifierId) :
    List ProjectionElement → Prop
  | [] => True
  | element :: rest => ElementTyped model current element ∧ ElementsTyped model current rest

end

/-- The class that a service is about. -/
def serviceClass (model : DomainModel) (service : Model.Service) : ClassId :=
  (model.parts.serviceGroup (model.parts.url service.url).group).klass

/-- Every path and every projection of a model is well typed. -/
structure WellTyped (model : DomainModel) : Prop where
  /-- A relationship is about the class that the source end leads to. -/
  relationships : ∀ association ∈ model.parts.associations, model.CriteriaTyped
    (.klass (model.parts.associationEnd association.source).target) association.criteria
  /-- An end with an ordering is to-many; the ordering is about the class it leads to. -/
  endOrderings : ∀ associationEnd ∈ model.parts.associationEnds,
    ∀ ordering ∈ associationEnd.orderBy, associationEnd.multiplicity.isToOne = false ∧
      model.OrderByTyped (.klass associationEnd.target) ordering
  /-- Clauses and orderings of a service are about the class of the group. -/
  clauses : ∀ service ∈ model.parts.services, ∀ clause ∈ service.clauses,
    model.CriteriaTyped (.klass (model.serviceClass service)) clause.criteria
  serviceOrderings : ∀ service ∈ model.parts.services, ∀ ordering ∈ service.orderBy,
    model.OrderByTyped (.klass (model.serviceClass service)) ordering
  projections : ∀ projection ∈ model.parts.projections,
    model.ElementsTyped projection.classifier projection.children
  /-- The projection of a service is on the class of the group or on a supertype. -/
  serviceProjections : ∀ service ∈ model.parts.services, ∀ id ∈ service.projection,
    model.Inherits (.klass (model.serviceClass service)) (model.parts.projection id).classifier

end DomainModel

namespace Assembly.Made

open Allocation (position)

variable {program : Program} {allocation : Allocation} {model : DomainModel}
  (made : Made program allocation model.parts) (covers : allocation.Covers program)
  (sound : program.Sound) {classifier : ClassifierIndex}

include made covers sound

section Hierarchy

/-- The parents of a classifier in the program and in the model. -/
theorem parents_position (has : allocation.HasClassifier classifier) :
    model.parents (allocation.classifierPosition classifier) =
      (program.parents classifier).map allocation.classifierPosition := by
  have interfaces := made.interfaces_eq has
    (sound.lookedUp classifier (covers.hasClassifier.mp has))
  cases classifier with
  | interface index =>
    rw [Allocation.classifierPosition] at interfaces ⊢
    rw [DomainModel.parents, interfaces, Program.parents, List.map_map, List.map_map]
    rfl
  | klass index =>
    rw [Allocation.classifierPosition] at interfaces ⊢
    rw [DomainModel.parents, interfaces, (made.klass has).superclass, Program.parents,
      List.map_append, List.map_map, List.map_map, List.map_map]
    cases program.superclass? index <;> rfl

omit made in
/-- Parents have ids. -/
theorem hasClassifier_of_mem_parents {parent : ClassifierIndex}
    (has : allocation.HasClassifier classifier) (member : parent ∈ program.parents classifier) :
    allocation.HasClassifier parent := by
  have implemented {interface : InterfaceIndex}
      (among : interface ∈ (program.classifier classifier).resolvedInterfaces) :
      allocation.HasClassifier (.interface interface) := by
    rw [Resolved.Classifier.resolvedInterfaces, List.mem_filterMap] at among
    obtain ⟨found, named, resolved⟩ := among
    obtain ⟨_, rfl, holds⟩ := sound.interfaces classifier (covers.hasClassifier.mp has) found named
    cases resolved
    exact covers.interfaces.mem_iff.mpr holds
  cases classifier with
  | interface index =>
    obtain ⟨interface, among, rfl⟩ := List.mem_map.mp member
    exact implemented among
  | klass index =>
    rcases Program.mem_parents_klass.mp member with
      ⟨superclass, named, rfl⟩ | ⟨interface, among, rfl⟩
    · exact covers.mem_classes_of_hasSuperclass sound has named
    · exact implemented among

/-- What is inherited from in the program is inherited from in the model. -/
theorem inherits_position {sub super : ClassifierIndex} (has : allocation.HasClassifier sub)
    (inherits : program.Inherits sub super) :
    model.Inherits (allocation.classifierPosition sub) (allocation.classifierPosition super) := by
  induction inherits using Relation.ReflTransGen.head_induction_on with
  | refl => exact .refl
  | head first _ ih =>
    have above := hasClassifier_of_mem_parents covers sound has first
    refine .head ?_ (ih above)
    rw [made.parents_position covers sound has]
    exact List.mem_map_of_mem first

end Hierarchy

section Paths

variable {this : ClassifierIndex}

/-- A property that is found in the program is found in the model. -/
theorem findProperty_position {name : String} {property : PropertyIndex}
    (has : allocation.HasClassifier classifier)
    (found : program.findProperty classifier name = .resolved property) :
    position allocation.properties property ∈
        model.properties (allocation.classifierPosition classifier) ∧
      model.findProperty (allocation.classifierPosition classifier)
        (model.parts.property (position allocation.properties property)).name =
          some (position allocation.properties property) := by
  have first := Program.find?_allProperties_of_findProperty found
  have known : ∀ other ∈ program.allProperties classifier, other ∈ allocation.properties :=
    fun other member => covers.properties.mem_iff.mpr
      (sound.coherent.holds_of_mem_allProperties member)
  have member := List.mem_of_find?_eq_some first
  have called : program.propertyName property = name := by
    simpa using List.find?_some first
  have names : (program.allProperties classifier).find? (fun other =>
      (model.parts.property (position allocation.properties other)).name =
        (model.parts.property (position allocation.properties property)).name) =
      some property := by
    rw [← first]
    refine List.find?_congr fun other among => ?_
    rw [(made.property (known other among)).name, (made.property (known property member)).name,
      called]
  rw [DomainModel.findProperty, (made.classifier has).properties]
  refine ⟨List.mem_map_of_mem member, ?_⟩
  rw [List.find?_map, Function.comp_def, names]
  rfl

/-- A walk in the program is a walk in the model. -/
theorem walks_position {start last : ClassifierIndex} {hops : List Resolved.Hop}
    {ids : List Model.AssociationEndId} (walks : program.Walks start hops last)
    (assembled : hops.mapM (hop allocation) = .ok ids)
    (has : allocation.HasClassifier start) :
    model.Walks (allocation.classifierPosition start) ids (allocation.classifierPosition last) ∧
      allocation.HasClassifier last := by
  rw [mapM_eq_ok] at assembled
  induction walks generalizing ids with
  | here classifier =>
    cases assembled
    exact ⟨.here _, has⟩
  | @step klass owner target last step associationEnd rest found holds _ owned above leads _
      ih =>
    cases assembled with
    | @cons _ id _ later here onward =>
      simp only [hop, bind_eq_ok, resolved_eq_ok, found, Resolution.resolved.injEq,
        Allocation.idOf_eq_ok] at here
      obtain ⟨_, rfl, member, rfl⟩ := here
      obtain ⟨_, same, held⟩ := sound.endTargets associationEnd holds
      rw [leads, Resolution.resolved.injEq] at same
      subst same
      have record := made.associationEnd member
      obtain ⟨walks, hasLast⟩ := ih onward (covers.classes.mem_iff.mpr held)
      refine ⟨.step ?_ ?_, hasLast⟩
      · rw [record.owner owner owned]
        exact made.isSubclassOf_position covers sound has above
      · rw [record.target target leads]
        exact walks

/-- Paths that lead to a property do so in the model. -/
theorem pathTyped_position {start last : ClassifierIndex} {path : Resolved.MemberPath}
    {property : PropertyIndex} {result : Model.MemberPath}
    (typed : program.PathTyped this path start last property)
    (assembled : memberPath allocation path = .ok result) :
    model.PathTyped result ∧ result.classifier = allocation.classifierPosition start ∧
      (path.hops = [] → result.hops = []) := by
  simp only [memberPath, bind_eq_ok, pure_eq_ok, resolved_eq_ok, typed.classifier, typed.reaches,
    Resolution.resolved.injEq, Allocation.classifierId_eq_ok, Allocation.idOf_eq_ok] at assembled
  obtain ⟨_, rfl, hops, walked, _, rfl, _, ⟨has, rfl⟩, _, ⟨member, rfl⟩, rfl⟩ := assembled
  obtain ⟨walks, hasLast⟩ := made.walks_position covers sound typed.walks walked has
  have found := made.findProperty_position covers sound hasLast typed.found
  refine ⟨⟨_, walks, found⟩, rfl, fun direct => ?_⟩
  rw [direct, mapM_eq_ok] at walked
  cases walked
  rfl

theorem thisPathTyped_position {path : Resolved.MemberPath} {result : Model.MemberPath}
    (typed : program.ThisPathTyped this path)
    (assembled : memberPath allocation path = .ok result) :
    model.ThisPathTyped (allocation.classifierPosition this) result := by
  obtain ⟨-, last, property, typedPath⟩ := typed
  obtain ⟨typedResult, classifier, -⟩ := made.pathTyped_position covers sound typedPath assembled
  exact ⟨classifier, typedResult⟩

theorem valueTyped_position {parameters : List ParameterIndex} {operand : Resolved.Value}
    {result : Model.Value} (typed : program.ValueTyped this parameters operand)
    (assembled : value allocation operand = .ok result) :
    model.ValueTyped (allocation.classifierPosition this) result := by
  cases operand with
  | member path =>
    obtain ⟨start, last, property, typedPath⟩ := typed
    rw [value] at assembled
    split at assembled
    · next origin =>
      simp only [bind_eq_ok, pure_eq_ok] at assembled
      obtain ⟨_, assembledPath, rfl⟩ := assembled
      have starts := typedPath.starts
      rw [origin, Program.StartsAt] at starts
      subst starts
      exact made.thisPathTyped_position covers sound ⟨origin, last, property, typedPath⟩
        assembledPath
    · simp only [bind_eq_ok, pure_eq_ok] at assembled
      obtain ⟨_, assembledPath, rfl⟩ := assembled
      exact (made.pathTyped_position covers sound typedPath assembledPath).1
  | «variable» name parameter =>
    simp only [value, bind_eq_ok, pure_eq_ok] at assembled
    obtain ⟨_, -, _, -, rfl⟩ := assembled
    trivial
  | literal _ _ | literals _ _ | user _ =>
    cases assembled
    trivial

/-- Criteria are well typed in the model when they are in the program. -/
theorem criteriaTyped_position {parameters : List ParameterIndex} {condition : Resolved.Criteria}
    {result : Model.Criteria} (typed : program.CriteriaTyped this parameters condition)
    (assembled : criteria allocation condition = .ok result) :
    model.CriteriaTyped (allocation.classifierPosition this) result := by
  induction condition generalizing result with
  | all _ =>
    cases assembled
    trivial
  | and left right leftTyped rightTyped | or left right leftTyped rightTyped =>
    simp only [criteria, bind_eq_ok, pure_eq_ok] at assembled
    obtain ⟨_, assembledLeft, _, assembledRight, rfl⟩ := assembled
    exact ⟨leftTyped typed.1 assembledLeft, rightTyped typed.2 assembledRight⟩
  | operator source _ target _ =>
    simp only [criteria, bind_eq_ok, pure_eq_ok] at assembled
    obtain ⟨_, assembledSource, _, assembledTarget, rfl⟩ := assembled
    exact ⟨made.valueTyped_position covers sound typed.1 assembledSource,
      made.valueTyped_position covers sound typed.2 assembledTarget⟩
  | edgePoint path _ =>
    simp only [criteria, bind_eq_ok, pure_eq_ok] at assembled
    obtain ⟨_, assembledPath, rfl⟩ := assembled
    exact made.thisPathTyped_position covers sound typed assembledPath

/-- Orderings are well typed in the model when they are in the program. -/
theorem orderByTyped_position {ordering : Option Resolved.OrderBy} {result : Option Model.OrderBy}
    (typed : ∀ written ∈ ordering, program.OrderByTyped this written)
    (assembled : orderBy allocation ordering = .ok result) :
    ∀ final ∈ result, ordering.isSome ∧
      model.OrderByTyped (allocation.classifierPosition this) final := by
  cases ordering with
  | none =>
    cases assembled
    exact nofun
  | some written =>
    simp only [orderBy, bind_eq_ok, pure_eq_ok] at assembled
    obtain ⟨members, madeMembers, rfl⟩ := assembled
    intro final isFinal
    cases isFinal
    refine ⟨rfl, fun member isMember => ?_⟩
    obtain ⟨source, among, assembledMember⟩ :=
      exists_of_mem_right (mapM_eq_ok.mp madeMembers) isMember
    simp only [orderByMember, bind_eq_ok, pure_eq_ok] at assembledMember
    obtain ⟨_, assembledPath, rfl⟩ := assembledMember
    obtain ⟨direct, origin, last, property, leads⟩ := typed written rfl source among
    exact ⟨(made.pathTyped_position covers sound leads assembledPath).2.2 direct,
      made.thisPathTyped_position covers sound ⟨origin, last, property, leads⟩ assembledPath⟩

end Paths

/-- A reference of the program is one of the model and leads to the same classifier. -/
theorem referenceTyped_position {current target : ClassifierIndex} {name : String}
    {found : Resolution Resolved.Reference} {index : Resolved.Reference}
    {result : Model.Reference} (has : allocation.HasClassifier current)
    (leads : program.LeadsTo current name found index target)
    (assembled : reference allocation name found = .ok result) :
    model.ReferenceTyped (allocation.classifierPosition current) result ∧
      model.referenceTarget result = allocation.classifierPosition target := by
  rw [reference, bind_eq_ok, leads.found] at assembled
  obtain ⟨_, same, assembled⟩ := assembled
  rw [resolved_eq_ok, Resolution.resolved.injEq] at same
  subst same
  have typed := leads.typed
  have targeted := leads.leads
  cases index with
  | associationEnd associationEnd =>
    simp only [bind_eq_ok, pure_eq_ok, Allocation.idOf_eq_ok] at assembled
    obtain ⟨_, ⟨member, rfl⟩, rfl⟩ := assembled
    obtain ⟨holds, -, klass, owner, rfl, owned, below⟩ := typed
    obtain ⟨targetClass, targetFound, rfl⟩ := Resolution.map_eq_resolved.mp targeted
    have record := made.associationEnd member
    refine ⟨⟨_, rfl, ?_⟩, ?_⟩
    · rw [record.owner owner owned]
      exact made.isSubclassOf_position covers sound has below
    · rw [DomainModel.referenceTarget, record.target targetClass targetFound]
      rfl
  | signature signature =>
    simp only [bind_eq_ok, pure_eq_ok, Allocation.idOf_eq_ok] at assembled
    obtain ⟨_, ⟨member, rfl⟩, rfl⟩ := assembled
    obtain ⟨holds, -, owned⟩ := typed
    obtain ⟨other, signatureTarget, -⟩ := sound.signatureTargets signature holds
    rw [Program.referenceTarget, signatureTarget, Option.getD_some,
      Resolution.resolved.injEq] at targeted
    subst targeted
    have record := made.endSignature member
    refine ⟨?_, record.target other signatureTarget⟩
    rw [DomainModel.ReferenceTyped, record.owner, owned]

omit made covers sound

mutual

/-- Elements of projections are well typed in the model when they are in the program. -/
theorem elementTyped_position (made : Made program allocation model.parts)
    (covers : allocation.Covers program) (sound : program.Sound)
    (current : ClassifierIndex) (has : allocation.HasClassifier current)
    (element : Resolved.ProjectionElement)
    (result : Model.ProjectionElement) (typed : program.ElementTyped current element)
    (assembled : projectionElement allocation element = .ok result) :
    model.ElementTyped (allocation.classifierPosition current) result := by
  cases element with
  | property name header found =>
    obtain ⟨property, rfl, -, named⟩ := typed
    simp only [projectionElement, bind_eq_ok, pure_eq_ok, resolved_eq_ok,
      Resolution.resolved.injEq, Allocation.idOf_eq_ok] at assembled
    obtain ⟨_, rfl, _, ⟨-, rfl⟩, rfl⟩ := assembled
    exact (made.findProperty_position covers sound has named).1
  | reference name found children =>
    obtain ⟨index, target, leads, typedChildren⟩ := typed
    simp only [projectionElement, bind_eq_ok, pure_eq_ok] at assembled
    obtain ⟨id, assembledReference, results, assembledChildren, rfl⟩ := assembled
    obtain ⟨typedReference, targeted⟩ :=
      made.referenceTyped_position covers sound has leads assembledReference
    refine ⟨typedReference, ?_⟩
    rw [targeted]
    exact elementsTyped_position made covers sound target (covers.hasClassifier.mpr leads.holds)
      children results typedChildren assembledChildren
  | projection name found projectionName projection =>
    obtain ⟨index, target, projectionIndex, projected, leads, rfl, holds, -, placed, fits⟩ := typed
    simp only [projectionElement, bind_eq_ok, pure_eq_ok, resolved_eq_ok,
      Resolution.resolved.injEq, Allocation.idOf_eq_ok] at assembled
    obtain ⟨_, rfl, id, assembledReference, _, ⟨member, rfl⟩, rfl⟩ := assembled
    obtain ⟨typedReference, targeted⟩ :=
      made.referenceTyped_position covers sound has leads assembledReference
    refine ⟨typedReference, ?_⟩
    rw [targeted, (made.projection member).classifier projected placed]
    exact made.inherits_position covers sound (covers.hasClassifier.mpr leads.holds)
      (Program.conforms_iff.mp fits)

theorem elementsTyped_position (made : Made program allocation model.parts)
    (covers : allocation.Covers program) (sound : program.Sound)
    (current : ClassifierIndex) (has : allocation.HasClassifier current)
    (elements : List Resolved.ProjectionElement)
    (results : List Model.ProjectionElement) (typed : program.ElementsTyped current elements)
    (assembled : projectionElements allocation elements = .ok results) :
    model.ElementsTyped (allocation.classifierPosition current) results := by
  cases elements with
  | nil =>
    cases assembled
    trivial
  | cons element rest =>
    simp only [projectionElements, bind_eq_ok, pure_eq_ok] at assembled
    obtain ⟨first, assembledFirst, others, assembledRest, rfl⟩ := assembled
    exact ⟨elementTyped_position made covers sound current has element first typed.1 assembledFirst,
      elementsTyped_position made covers sound current has rest others typed.2 assembledRest⟩

end

end Assembly.Made

namespace DomainModel.AssembledFrom

open Allocation (position)

variable {model : DomainModel} {units : List CompilationUnit}
  {recorded : List RecordedDeclaration} {fragments : List CompilationUnit} {workspace : Workspace}
  (assembled : model.AssembledFrom units recorded fragments workspace)
include assembled

/-- The class that a service is about is the one of its group. -/
theorem serviceClass_position {index : ServiceIndex}
    (holds : workspace.program.services.Holds index) {klass : ClassIndex}
    (found : (workspace.program.serviceGroups.get (workspace.program.urls.get
      (workspace.program.services.get index).url).group).klass = some (.resolved klass)) :
    model.serviceClass (model.parts.service
        (position workspace.allocation.services index)) =
      position workspace.allocation.classes klass := by
  have covers := assembled.covers
  have made := assembled.made
  have url := assembled.sound.coherent.services.held_owner index holds
  have group := assembled.sound.coherent.urls.held_owner _ url
  rw [serviceClass, (made.service (covers.services.mem_iff.mpr holds)).url,
    (made.url (covers.urls.mem_iff.mpr url)).group,
    (made.serviceGroup (covers.serviceGroups.mem_iff.mpr group)).klass klass found]

/-- Relationships are about the class that the source end leads to. -/
theorem relationship_typed {index : AssociationIndex}
    (holds : workspace.program.associations.Holds index) {association : Model.Association}
    (isRecord : model.parts.association
      (position workspace.allocation.associations index) = association) :
    model.CriteriaTyped (.klass (model.parts.associationEnd association.source).target)
      association.criteria := by
  obtain ⟨-, -, sound, covers, made, -⟩ := assembled
  obtain ⟨relationship, this, filled, source, typed⟩ := sound.relationships index holds
  obtain ⟨klass, target, rfl⟩ := Resolution.map_eq_resolved.mp source
  have sourceEnd := covers.associationEnds.mem_iff.mpr (sound.coherent.ends.holds_source holds)
  have record := made.association (covers.associations.mem_iff.mpr holds)
  rw [isRecord] at record
  rw [record.source, (made.associationEnd sourceEnd).target klass target]
  exact made.criteriaTyped_position covers sound typed (record.criteria relationship filled)

/-- Orderings of ends are about the class that the end leads to, and the end is to-many. -/
theorem endOrdering_typed {associationEnd : Model.AssociationEnd}
    (member : associationEnd ∈ model.parts.associationEnds) {ordering : Model.OrderBy}
    (ordered : ordering ∈ associationEnd.orderBy) :
    associationEnd.multiplicity.isToOne = false ∧
      model.OrderByTyped (.klass associationEnd.target) ordering := by
  obtain ⟨-, -, sound, covers, made, -⟩ := assembled
  obtain ⟨index, known, rfl⟩ := made.exists_mem_associationEnds covers.associationEnds.nodup member
  have record := made.associationEnd known
  have holds := covers.associationEnds.mem_iff.mp known
  obtain ⟨klass, target, -⟩ := sound.endTargets index holds
  have typed : ∀ written ∈ (workspace.program.associationEnds.get index).orderBy,
      workspace.program.OrderByTyped (.klass klass) written := by
    intro written isWritten
    obtain ⟨-, this, leads, typed⟩ := sound.endOrderings index holds written isWritten
    rw [Program.endTarget, target] at leads
    cases leads
    exact typed
  obtain ⟨isSome, typedOrdering⟩ :=
    made.orderByTyped_position covers sound typed record.orderBy ordering ordered
  obtain ⟨written, isWritten⟩ := Option.isSome_iff_exists.mp isSome
  rw [record.multiplicity, record.target klass target]
  exact ⟨(sound.endOrderings index holds written isWritten).1, typedOrdering⟩

/-- Clauses are about the class of the group. -/
theorem clause_typed {service : Model.Service} (member : service ∈ model.parts.services)
    {clause : Model.Clause} (isClause : clause ∈ service.clauses) :
    model.CriteriaTyped (.klass (model.serviceClass service)) clause.criteria := by
  obtain ⟨-, -, sound, covers, made, -⟩ := id assembled
  obtain ⟨index, known, rfl⟩ := made.exists_mem_services covers.services.nodup member
  have holds := covers.services.mem_iff.mp known
  obtain ⟨source, among, assembledClause⟩ :=
    exists_of_mem_right (mapM_eq_ok.mp (made.service known).clauses) isClause
  simp only [Assembly.clause, bind_eq_ok, pure_eq_ok, Assembly.filled_eq_ok] at assembledClause
  obtain ⟨condition, filled, result, assembledCriteria, rfl⟩ := assembledClause
  obtain ⟨_, klass, same, ofGroup, typed⟩ := sound.clauses index holds source among
  rw [filled, Option.some.injEq] at same
  subst same
  rw [assembled.serviceClass_position holds ofGroup]
  exact made.criteriaTyped_position covers sound typed assembledCriteria

/-- Orderings of services are about the class of the group. -/
theorem serviceOrdering_typed {service : Model.Service} (member : service ∈ model.parts.services)
    {ordering : Model.OrderBy} (ordered : ordering ∈ service.orderBy) :
    model.OrderByTyped (.klass (model.serviceClass service)) ordering := by
  obtain ⟨analysed, free, sound, covers, made, -⟩ := id assembled
  obtain ⟨index, known, rfl⟩ := made.exists_mem_services covers.services.nodup member
  have holds := covers.services.mem_iff.mp known
  obtain ⟨klass, -, ofGroup, -⟩ := analysed.serviceClass_found free holds
  have typed : ∀ written ∈ (workspace.program.services.get index).orderBy,
      workspace.program.OrderByTyped (.klass klass) written := by
    intro written isWritten
    obtain ⟨other, same, typed⟩ := sound.serviceOrderings index holds written isWritten
    rw [ofGroup] at same
    cases same
    exact typed
  rw [assembled.serviceClass_position holds ofGroup]
  exact (made.orderByTyped_position covers sound typed (made.service known).orderBy ordering
    ordered).2

theorem projection_typed {projection : Model.Projection}
    (member : projection ∈ model.parts.projections) :
    model.ElementsTyped projection.classifier projection.children := by
  obtain ⟨analysed, -, sound, covers, made, -⟩ := assembled
  obtain ⟨index, known, rfl⟩ := made.exists_mem_projections covers.projections.nodup member
  obtain ⟨classifier, placed, held, typed⟩ :=
    sound.projections index (covers.projections.mem_iff.mp known)
  have record := made.projection known
  rw [record.classifier classifier placed]
  exact made.elementsTyped_position covers sound classifier (covers.hasClassifier.mpr held) _ _
    typed record.children

/-- The projection of a service is on the class of the group or on a supertype. -/
theorem serviceProjection_inherits {service : Model.Service}
    (member : service ∈ model.parts.services) {shown : Model.ProjectionId}
    (projected : shown ∈ service.projection) :
    model.Inherits (.klass (model.serviceClass service))
      (model.parts.projection shown).classifier := by
  obtain ⟨analysed, free, sound, covers, made, -⟩ := id assembled
  obtain ⟨index, known, rfl⟩ := made.exists_mem_services covers.services.nodup member
  have holds := covers.services.mem_iff.mp known
  have assembledProjection := (made.service known).projection
  rw [projected, Assembly.serviceProjection] at assembledProjection
  split at assembledProjection
  · next name resolution _ named =>
    simp only [bind_eq_ok, pure_eq_ok, Assembly.resolved_eq_ok, Allocation.idOf_eq_ok,
      Option.some.injEq] at assembledProjection
    obtain ⟨projection, rfl, _, ⟨projectionKnown, rfl⟩, rfl⟩ := assembledProjection
    obtain ⟨_, classifier, klass, same, -, placed, ofGroup, fits⟩ :=
      sound.serviceProjections index holds _ named
    cases same
    obtain ⟨other, -, sameGroup, held⟩ := analysed.serviceClass_found free holds
    rw [ofGroup] at sameGroup
    cases sameGroup
    have hasClass : workspace.allocation.HasClassifier (.klass klass) :=
      covers.hasClassifier.mpr held
    rw [assembled.serviceClass_position holds ofGroup,
      (made.projection projectionKnown).classifier classifier placed]
    exact made.inherits_position covers sound hasClass (Program.conforms_iff.mp fits)
  · cases assembledProjection

/-- What was assembled of a program without errors is well typed. -/
theorem wellTyped : model.WellTyped where
  relationships _ member := by
    obtain ⟨index, known, isRecord⟩ := assembled.made.exists_mem_associations
      assembled.covers.associations.nodup member
    exact assembled.relationship_typed (assembled.covers.associations.mem_iff.mp known) isRecord
  endOrderings _ member _ ordered := assembled.endOrdering_typed member ordered
  clauses _ member _ isClause := assembled.clause_typed member isClause
  serviceOrderings _ member _ ordered := assembled.serviceOrdering_typed member ordered
  projections _ member := assembled.projection_typed member
  serviceProjections _ member _ projected := assembled.serviceProjection_inherits member projected

end DomainModel.AssembledFrom

/-- Every path and every projection of a model that is compiled is well typed. -/
theorem compile_wellTyped {trees : List (String × Syntax.SourceTree)}
    {configuration : Configuration} {compilation : Compilation} {model : DomainModel}
    (compiled : compile trees configuration = .ok compilation)
    (found : compilation.model = some model) : model.WellTyped := by
  obtain ⟨workspace, recorded, fragments, assembled, -⟩ :=
    exists_assembledFrom_of_compile compiled found
  exact assembled.wellTyped

/-- The model of the documents is well typed; it has a nested projection, an inferred clause
with a hop and orderings. -/
theorem compile_wellTyped_documents : ∃ compilation model,
    compile Sample.trees {} = .ok compilation ∧ compilation.model = some model ∧
      model.parts.projections.length = 1 ∧
      model.parts.services.map (·.clauses.length) = [2] ∧ model.WellTyped := by
  obtain ⟨compilation, model, compiled, found, -, projections, clauses, -⟩ := Sample.compiles
  exact ⟨compilation, model, compiled, found, projections, clauses,
    compile_wellTyped compiled found⟩

end DomainLang
