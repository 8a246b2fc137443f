import DomainLang.Proofs.Links.Declarations

/-!
# Links from paths, projections and services

Orderings, projections, services and criteria are looked up in a program whose
declarations are linked already. None of the steps changes anything that a lookup reads, so
what each of them stores can be stated about the program that comes out in the end:
`Program.LinkedReferences` says that every stored outcome is what the lookup of the written
names gives there.
-/

namespace DomainLang

open Resolved

namespace Program

/-- Everything that lookups read is the same. -/
structure SameLookups (before after : Program) : Prop where
  program : after = { before with
    associations := after.associations
    associationEnds := after.associationEnds
    projections := after.projections
    serviceGroups := after.serviceGroups
    parameters := after.parameters
    services := after.services
    referencedProperties := after.referencedProperties }
  endTargets : ∀ index,
    (after.associationEnds.get index).target = (before.associationEnds.get index).target
  endNames : ∀ index,
    (after.associationEnds.get index).name = (before.associationEnds.get index).name
  classNames : ∀ index,
    (after.serviceGroups.get index).className = (before.serviceGroups.get index).className
  parameterNames : ∀ index,
    (after.parameters.get index).name = (before.parameters.get index).name

namespace SameLookups

variable {before middle after : Program}

/-- To keep the lookups twice is to keep them. -/
theorem trans (first : SameLookups before middle) (second : SameLookups middle after) :
    SameLookups before after where
  program := by rw [second.program, first.program]
  endTargets index := (second.endTargets index).trans (first.endTargets index)
  endNames index := (second.endNames index).trans (first.endNames index)
  classNames index := (second.classNames index).trans (first.classNames index)
  parameterNames index := (second.parameterNames index).trans (first.parameterNames index)

variable (same : SameLookups before after)
include same

theorem findProperty_eq : after.findProperty = before.findProperty := by
  rw [same.program]
  rfl

theorem superclassChain_eq : after.superclassChain = before.superclassChain := by
  rw [same.program]
  rfl

theorem classifier_eq : after.classifier = before.classifier := by
  rw [same.program]
  rfl

theorem endName_eq : after.endName = before.endName := by
  funext index
  rw [endName, endName, same.endNames]

theorem endTarget_eq : after.endTarget = before.endTarget := by
  funext index
  rw [endTarget, endTarget, same.endTargets]

/-- A hop finds the same end. -/
theorem findHop_eq : after.findHop = before.findHop := by
  have classes : after.classes = before.classes := by rw [same.program]
  funext name classifier
  cases classifier with
  | interface index => rfl
  | klass index =>
    simp only [findHop, findAssociationEnd, allAssociationEnds, same.endName_eq,
      same.superclassChain_eq, classes]

/-- A path follows the same hops. -/
theorem followHops_eq : after.followHops = before.followHops := by
  funext current names
  induction names generalizing current with
  | nil => rfl
  | cons name names ih =>
    simp only [followHops, same.findHop_eq, same.endTarget_eq, ih]

/-- A path leads to the same property. -/
theorem resolvePath_eq : after.resolvePath = before.resolvePath := by
  funext origin classifier hops member unit span
  simp only [resolvePath, same.followHops_eq, same.findProperty_eq]

theorem resolveThisPath_eq : after.resolveThisPath = before.resolveThisPath := by
  funext this unit path
  simp only [resolveThisPath, same.resolvePath_eq]

theorem resolveOrderBy_eq : after.resolveOrderBy = before.resolveOrderBy := by
  funext this unit ordering
  simp only [resolveOrderBy, same.resolveThisPath_eq]

variable (registry : Registry)

theorem resolveValue_eq : after.resolveValue registry = before.resolveValue registry := by
  funext scope value
  cases value <;> simp only [resolveValue, resolveTypePath, same.resolveThisPath_eq,
    same.resolvePath_eq, same.parameterNames]

/-- A criteria resolves the same, by its constructors. -/
theorem resolveCriteria_eq : after.resolveCriteria registry = before.resolveCriteria registry := by
  funext scope criteria
  induction criteria with
  | all node => rfl
  | and node left right ofLeft ofRight => simp only [resolveCriteria, ofLeft, ofRight]
  | or node left right ofLeft ofRight => simp only [resolveCriteria, ofLeft, ofRight]
  | operator node source mark target => simp only [resolveCriteria, same.resolveValue_eq]
  | edgePoint node member => simp only [resolveCriteria, same.resolveThisPath_eq]

theorem findReference_eq : after.findReference = before.findReference := by
  have signatures : after.endSignatures = before.endSignatures := by rw [same.program]
  funext name classifier
  simp only [findReference, same.findHop_eq, same.classifier_eq, signatures]

/-- A reference leads to the same classifier. -/
theorem referenceTarget_eq : after.referenceTarget = before.referenceTarget := by
  have signatures : after.endSignatures = before.endSignatures := by rw [same.program]
  funext reference
  cases reference <;> simp only [referenceTarget, same.endTarget_eq, signatures]

section Elements

omit same

mutual

/-- An element of a projection is resolved alike. -/
theorem resolveElement_eq (same : SameLookups before after) :
    ∀ (element : Syntax.ProjectionElement) (classifier : Resolution ClassifierIndex),
      after.resolveElement registry classifier element =
        before.resolveElement registry classifier element
  | .property _ _ _, _ => by simp only [resolveElement, same.findProperty_eq]
  | .reference _ _ children, _ => by
    simp only [resolveElement, same.findReference_eq, same.referenceTarget_eq,
      same.resolveElements_eq children]
  | .projection _ _ _, _ => by simp only [resolveElement, same.findReference_eq]

/-- The elements of a projection are resolved alike, at every level. -/
theorem resolveElements_eq (same : SameLookups before after) :
    ∀ (elements : List Syntax.ProjectionElement) (classifier : Resolution ClassifierIndex),
      after.resolveElements registry classifier elements =
        before.resolveElements registry classifier elements
  | [], _ => rfl
  | element :: rest, _ => by
    simp only [resolveElements, same.resolveElement_eq element, same.resolveElements_eq rest]

end

end Elements

theorem serviceClass_eq : after.serviceClass registry = before.serviceClass registry := by
  have urls : after.urls = before.urls := by rw [same.program]
  funext service
  simp only [serviceClass, Service.className, same.classNames, urls]

theorem relationshipScope_eq : after.relationshipScope = before.relationshipScope := by
  funext association
  simp only [relationshipScope, same.endTarget_eq]

/-- A clause sees the same class and parameters. -/
theorem clauseScope_eq : after.clauseScope registry = before.clauseScope registry := by
  have urls : after.urls = before.urls := by rw [same.program]
  funext service clause
  simp only [clauseScope, same.serviceClass_eq, urls]

end SameLookups

section Steps

variable (program : Program) (registry : Registry)

/-- Orderings are no part of a lookup. -/
theorem sameLookups_linkOrderings : program.SameLookups (program.linkOrderings registry) := by
  refine ⟨rfl, ?_, ?_, fun _ => rfl, fun _ => rfl⟩
  · refine fun index => Arena.field_get_map AssociationEnd.target ?_ index
    exact fun _ => rfl
  · refine fun index => Arena.field_get_map AssociationEnd.name ?_ index
    exact fun _ => rfl

theorem sameLookups_linkProjections : program.SameLookups (program.linkProjections registry) :=
  ⟨rfl, fun _ => rfl, fun _ => rfl, fun _ => rfl, fun _ => rfl⟩

/-- What services and their groups refer to is no part of a lookup. -/
theorem sameLookups_linkServices : program.SameLookups (program.linkServices registry) := by
  refine ⟨rfl, fun _ => rfl, fun _ => rfl, ?_, ?_⟩
  · refine fun index => Arena.field_get_map ServiceGroup.className ?_ index
    exact fun _ => rfl
  · refine fun index => Arena.field_get_map Parameter.name ?_ index
    exact fun _ => rfl

theorem sameLookups_linkCriteria : program.SameLookups (program.linkCriteria registry) :=
  ⟨rfl, fun _ => rfl, fun _ => rfl, fun _ => rfl, fun _ => rfl⟩

/-- Joins are no part of a lookup. -/
theorem sameLookups_classifyJoins : program.SameLookups program.classifyJoins :=
  ⟨rfl, fun _ => rfl, fun _ => rfl, fun _ => rfl, fun _ => rfl⟩

/-- To resolve the orderings changes nothing but what is resolved. -/
theorem unlinked_linkOrderings :
    (program.linkOrderings registry).unlinked = program.unlinked := by
  simp only [linkOrderings, refer, unlinked, mk.injEq, true_and, and_true]
  exact ⟨Arena.map_map_of_unseen fun _ => rfl, Arena.map_map_of_unseen fun _ => rfl⟩

theorem unlinked_linkProjections :
    (program.linkProjections registry).unlinked = program.unlinked := by
  simp only [linkProjections, refer, unlinked, mk.injEq, true_and, and_true]
  exact Arena.map_map_of_unseen fun _ => rfl

theorem unlinked_linkServices :
    (program.linkServices registry).unlinked = program.unlinked := by
  simp only [linkServices, unlinked, mk.injEq, true_and, and_true]
  exact ⟨Arena.map_map_of_unseen fun _ => rfl, Arena.map_map_of_unseen fun _ => rfl,
    Arena.map_map_of_unseen fun _ => rfl⟩

/-- To resolve the criteria changes nothing but what is resolved. -/
theorem unlinked_linkCriteria :
    (program.linkCriteria registry).unlinked = program.unlinked := by
  simp only [linkCriteria, refer, unlinked, mk.injEq, true_and, and_true]
  refine ⟨Arena.map_map_of_unseen fun _ => rfl, Arena.map_map_of_unseen fun service => ?_⟩
  simp [Service.unlinked, Clause.unlinked]

/-- Only the join and the foreign keys of an association are found out. -/
theorem classify_eq (association : Resolved.Association) :
    ∃ join foreignKeys, Association.classify program association =
      { association with join, foreignKeys } := by
  simp only [Association.classify]
  split
  · exact ⟨_, _, rfl⟩
  · split <;> exact ⟨_, _, rfl⟩

/-- To look for a join twice is to look for it once. -/
theorem classify_classify (association : Resolved.Association) :
    Association.classify program (Association.classify program association) =
      Association.classify program association := by
  cases relationship : association.relationship with
  | none => simp only [Association.classify, relationship]
  | some criteria =>
    cases pairs : Association.directJoinPairs? criteria
        ((program.associationEnds.get association.target).target.map .klass) <;>
      simp only [Association.classify, Association.foreignKeys, relationship, pairs]

/-- To find the joins changes nothing but what is resolved. -/
theorem unlinked_classifyJoins : program.classifyJoins.unlinked = program.unlinked := by
  simp only [classifyJoins, unlinked, mk.injEq, true_and, and_true]
  refine Arena.map_map_of_unseen fun association => ?_
  obtain ⟨_, _, equal⟩ := program.classify_eq association
  rw [equal]
  rfl

/-- Resolve orderings, projections, services and criteria, and find the joins. -/
def linkReferences : Program :=
  ((((program.linkOrderings registry).linkProjections registry).linkServices
    registry).linkCriteria registry).classifyJoins

/-- Linking as a whole leaves the lookups alone. -/
theorem sameLookups_linkReferences : program.SameLookups (program.linkReferences registry) :=
  (program.sameLookups_linkOrderings registry).trans
    ((sameLookups_linkProjections _ registry).trans
      ((sameLookups_linkServices _ registry).trans
        ((sameLookups_linkCriteria _ registry).trans (sameLookups_classifyJoins _))))

/-- Linking as a whole changes nothing but what is resolved. -/
theorem unlinked_linkReferences :
    (program.linkReferences registry).unlinked = program.unlinked := by
  rw [linkReferences, unlinked_classifyJoins, unlinked_linkCriteria, unlinked_linkServices,
    unlinked_linkProjections, unlinked_linkOrderings]

/-- What is known about declarations is not touched. -/
theorem LinkedDeclarations.linkReferences {program : Program} {registry : Registry}
    (linked : program.LinkedDeclarations registry) :
    (program.linkReferences registry).LinkedDeclarations registry := by
  let orderings (associationEnd : AssociationEnd) : Option OrderBy :=
    associationEnd.declaration.orderBy.map
      (program.resolveOrderBy (associationEnd.target.map .klass) associationEnd.context.unit)
  have ends : (program.linkReferences registry).associationEnds =
      program.associationEnds.map fun associationEnd =>
        { associationEnd with orderBy := orderings associationEnd } := rfl
  have same := (program.sameLookups_linkReferences registry).program
  exact linked.congr (by rw [same]) (by rw [same]) (by rw [same]) (by rw [same])
    ⟨orderings, ends⟩

end Steps

/-- What is stored about orderings, projections, services, criteria and joins is what lookups
give. -/
structure LinkedReferences (registry : Registry) (program : Program) : Prop where
  endOrderings : ∀ index, program.associationEnds.Holds index →
    (program.associationEnds.get index).orderBy =
      (program.associationEnds.get index).declaration.orderBy.map
        (program.resolveOrderBy (program.endTarget index)
          (program.associationEnds.get index).context.unit)
  serviceOrderings : ∀ index, program.services.Holds index →
    (program.services.get index).orderBy =
      (program.services.get index).declaration.orderBy.map
        (program.resolveOrderBy (program.serviceClass registry (program.services.get index))
          (program.services.get index).context.unit)
  projections : ∀ index, program.projections.Holds index →
    (program.projections.get index).classifier =
      some (registry.findClassifier (program.projections.get index).classifierName.name)
  children : ∀ index, program.projections.Holds index →
    (program.projections.get index).children =
      program.resolveElements registry
        (registry.findClassifier (program.projections.get index).classifierName.name)
        (program.projections.get index).declaredChildren
  groups : ∀ index, program.serviceGroups.Holds index →
    (program.serviceGroups.get index).klass =
      some (registry.classes.find (program.serviceGroups.get index).className.name)
  serviceProjections : ∀ index, program.services.Holds index →
    (program.services.get index).projection =
      (program.services.get index).declaration.projection.map fun name =>
        registry.projections.find name.name
  parameters : ∀ index, program.parameters.Holds index →
    (program.parameters.get index).enumeration =
      registry.findTypeEnumeration (program.parameters.get index).declaration.type
  relationships : ∀ index, program.associations.Holds index →
    (program.associations.get index).relationship =
      some (program.resolveCriteria registry
        (program.relationshipScope (program.associations.get index))
        (program.associations.get index).declaredRelationship)
  clauses : ∀ index, program.services.Holds index →
    ∀ clause ∈ (program.services.get index).clauses,
      clause.criteria = some (program.resolveCriteria registry
        (program.clauseScope registry (program.services.get index) clause)
        clause.declaration.criteria)
  /-- To look for joins again would change nothing. -/
  joins : ∀ index, program.associations.Holds index →
    Association.classify program (program.associations.get index) =
      program.associations.get index

/-- A foreign key stands on the source or on the target. -/
theorem LinkedReferences.associationEnd_of_mem_foreignKeys {registry : Registry}
    {program : Program} (references : program.LinkedReferences registry)
    {index : AssociationIndex} (holds : program.associations.Holds index) {key : ForeignKey}
    (member : key ∈ (program.associations.get index).foreignKeys) :
    key.associationEnd = (program.associations.get index).source ∨
      key.associationEnd = (program.associations.get index).target := by
  have keys := congrArg Resolved.Association.foreignKeys (references.joins index holds)
  simp only [Association.classify, references.relationships index holds] at keys
  split at keys
  · rw [← keys] at member
    cases member
  · rw [← keys, Association.foreignKeys] at member
    split at member
    · obtain ⟨_, -, rfl⟩ := List.mem_map.mp member
      exact .inl rfl
    · split at member
      · obtain ⟨_, -, rfl⟩ := List.mem_map.mp member
        exact .inr rfl
      · cases member

section Records

variable {program linked : Program} {registry : Registry}
  (links : program.linkReferences registry = linked)
include links

/-- Nothing that lookups read is changed once services are linked. -/
theorem sameLookups_of_linkServices :
    (((program.linkOrderings registry).linkProjections registry).linkServices
      registry).SameLookups linked := by
  rw [← links]
  exact (sameLookups_linkCriteria _ registry).trans (sameLookups_classifyJoins _)

/-- Nothing that lookups read is changed once orderings are linked. -/
theorem sameLookups_of_linkOrderings : (program.linkOrderings registry).SameLookups linked :=
  (sameLookups_linkProjections _ registry).trans
    ((sameLookups_linkServices _ registry).trans (sameLookups_of_linkServices links))

/-- Association ends get their ordering. -/
theorem get_associationEnds_linkReferences {index : AssociationEndIndex}
    (holds : linked.associationEnds.Holds index) :
    linked.associationEnds.get index = { program.associationEnds.get index with
      orderBy := (program.associationEnds.get index).declaration.orderBy.map
        (linked.resolveOrderBy (linked.endTarget index)
          (program.associationEnds.get index).context.unit) } := by
  subst links
  have same := program.sameLookups_linkReferences registry
  have held : program.associationEnds.Holds index := Arena.holds_map.mp holds
  rw [same.resolveOrderBy_eq, same.endTarget_eq]
  exact Arena.get_map held _

/-- Projections get their classifier and their elements. -/
theorem get_projections_linkReferences {index : ProjectionIndex}
    (holds : linked.projections.Holds index) :
    linked.projections.get index = { program.projections.get index with
      classifier := some (registry.findClassifier
        (program.projections.get index).classifierName.name)
      children := linked.resolveElements registry
        (registry.findClassifier (program.projections.get index).classifierName.name)
        (program.projections.get index).declaredChildren } := by
  have same := sameLookups_of_linkOrderings links
  rw [same.resolveElements_eq]
  subst links
  have held : program.projections.Holds index := Arena.holds_map.mp holds
  exact Arena.get_map held _

/-- Service groups get their class. -/
theorem get_serviceGroups_linkReferences {index : ServiceGroupIndex}
    (holds : linked.serviceGroups.Holds index) :
    linked.serviceGroups.get index = { program.serviceGroups.get index with
      klass := some (registry.classes.find (program.serviceGroups.get index).className.name) } := by
  subst links
  have held : program.serviceGroups.Holds index := Arena.holds_map.mp holds
  exact Arena.get_map held _

/-- Parameters get the enumeration of their type. -/
theorem get_parameters_linkReferences {index : ParameterIndex}
    (holds : linked.parameters.Holds index) :
    linked.parameters.get index = { program.parameters.get index with
      enumeration := registry.findTypeEnumeration
        (program.parameters.get index).declaration.type } := by
  subst links
  have held : program.parameters.Holds index := Arena.holds_map.mp holds
  exact Arena.get_map held _

/-- Services get their ordering, their projection and the criteria of their clauses, in three
steps that leave each other's outcomes alone. -/
theorem get_services_linkReferences {index : ServiceIndex} (holds : linked.services.Holds index) :
    linked.services.get index = { program.services.get index with
      orderBy := (program.services.get index).declaration.orderBy.map
        (linked.resolveOrderBy (linked.serviceClass registry (program.services.get index))
          (program.services.get index).context.unit)
      projection := (program.services.get index).declaration.projection.map fun name =>
        registry.projections.find name.name
      clauses := (program.services.get index).clauses.map fun clause =>
        { clause with
          criteria := some (linked.resolveCriteria registry
            (linked.clauseScope registry (program.services.get index) clause)
            clause.declaration.criteria) } } := by
  have served := sameLookups_of_linkServices links
  have same : program.SameLookups linked := links ▸ program.sameLookups_linkReferences registry
  rw [same.resolveOrderBy_eq, same.serviceClass_eq, served.resolveCriteria_eq,
    served.clauseScope_eq]
  subst links
  have heldServed : (((program.linkOrderings registry).linkProjections registry).linkServices
    registry).services.Holds index := Arena.holds_map.mp holds
  have heldOrdered : (program.linkOrderings registry).services.Holds index :=
    Arena.holds_map.mp heldServed
  have held : program.services.Holds index := Arena.holds_map.mp heldOrdered
  have last : (program.linkReferences registry).services.get index = _ :=
    Arena.get_map heldServed _
  have middle : (((program.linkOrderings registry).linkProjections registry).linkServices
    registry).services.get index = _ := Arena.get_map heldOrdered _
  have first : (program.linkOrderings registry).services.get index = _ := Arena.get_map held _
  rw [last, middle, first]
  rfl

/-- Associations get their relationship, and then a join is looked for in it. -/
theorem get_associations_linkReferences {index : AssociationIndex}
    (holds : linked.associations.Holds index) :
    ∃ searched : Program, linked.associations.get index =
      Association.classify searched { program.associations.get index with
        relationship := some (linked.resolveCriteria registry
          (linked.relationshipScope (program.associations.get index))
          (program.associations.get index).declaredRelationship) } ∧
      Association.classify linked = Association.classify searched := by
  have served := sameLookups_of_linkServices links
  rw [served.resolveCriteria_eq, served.relationshipScope_eq]
  subst links
  let searched := (((program.linkOrderings registry).linkProjections registry).linkServices
    registry).linkCriteria registry
  have heldLinked : searched.associations.Holds index := Arena.holds_map.mp holds
  have held : program.associations.Holds index := Arena.holds_map.mp heldLinked
  have classified : (program.linkReferences registry).associations.get index =
    Association.classify searched (searched.associations.get index) := Arena.get_map heldLinked _
  have related : searched.associations.get index = _ := Arena.get_map held _
  refine ⟨searched, ?_, rfl⟩
  rw [classified, related]

end Records

/-- Linking stores what lookups in the linked program give. -/
theorem linkedReferences_linkReferences (program : Program) (registry : Registry) :
    (program.linkReferences registry).LinkedReferences registry := by
  generalize links : program.linkReferences registry = linked
  constructor
  case endOrderings =>
    intro index holds
    rw [get_associationEnds_linkReferences links holds]
  case projections =>
    intro index holds
    rw [get_projections_linkReferences links holds]
  case children =>
    intro index holds
    rw [get_projections_linkReferences links holds]
  case groups =>
    intro index holds
    rw [get_serviceGroups_linkReferences links holds]
  case parameters =>
    intro index holds
    rw [get_parameters_linkReferences links holds]
  case serviceOrderings =>
    intro index holds
    rw [get_services_linkReferences links holds]
    rfl
  case serviceProjections =>
    intro index holds
    rw [get_services_linkReferences links holds]
  case clauses =>
    intro index holds clause member
    rw [get_services_linkReferences links holds] at member ⊢
    obtain ⟨written, _, rfl⟩ := List.mem_map.mp member
    rfl
  case relationships =>
    intro index holds
    obtain ⟨searched, classified, -⟩ := get_associations_linkReferences links holds
    obtain ⟨_, _, equal⟩ := classify_eq searched _
    rw [classified, equal]
    rfl
  case joins =>
    intro index holds
    obtain ⟨searched, classified, same⟩ := get_associations_linkReferences links holds
    rw [same, classified]
    exact classify_classify searched _

end Program
end DomainLang
