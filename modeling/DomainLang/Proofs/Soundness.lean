import DomainLang.Proofs.Analysis
import DomainLang.Proofs.Joins
import DomainLang.Proofs.Links.Typing

/-!
# Programs without errors are sound

In a sound program every name that was looked up was found, and every path, ordering and
projection is well typed. The rules of the analysis are strong enough for that: each way in
which a lookup can fail is reported as an error, here or as a repeated name.
-/

namespace DomainLang

open Resolved

/-- A lookup that found something which is there. -/
def Resolution.Finds {α : Type} (holds : α → Prop) (resolution : Resolution α) : Prop :=
  ∃ value, resolution = .resolved value ∧ holds value

namespace Program

/-- The enumeration of a type was found, if it is one. -/
def TypeFound (program : Program) (type : Syntax.PropertyType)
    (found : Option (Resolution EnumerationIndex)) : Prop :=
  ∀ name, type = .enumeration name → ∃ enumeration,
    found = some (.resolved enumeration) ∧ program.enumerations.Holds enumeration

/-- A program in which every name means something. -/
structure Sound (program : Program) : Prop where
  coherent : program.Coherent none none
  endsListed : program.EndsListed
  named : program.NamedApart
  members : ∀ classifier, program.MembersApart classifier
  interfaces : ∀ classifier, program.HoldsClassifier classifier →
    ∀ found ∈ (program.classifier classifier).interfaces, found.Finds program.interfaces.Holds
  /-- Each interface that a classifier names was looked up. -/
  lookedUp : ∀ classifier, program.HoldsClassifier classifier →
    (program.classifier classifier).interfaces.length =
      (program.classifier classifier).declaredInterfaces.length
  superclasses : ∀ klass, program.classes.Holds klass →
    ∀ found ∈ (program.classes.get klass).superclass, found.Finds program.classes.Holds
  propertyTypes : ∀ property, program.properties.Holds property →
    program.TypeFound (program.properties.get property).declaration.type
      (program.properties.get property).enumeration
  parameterTypes : ∀ parameter, program.parameters.Holds parameter →
    program.TypeFound (program.parameters.get parameter).declaration.type
      (program.parameters.get parameter).enumeration
  signatureTargets : ∀ signature, program.endSignatures.Holds signature →
    ∃ target, (program.endSignatures.get signature).target = some (.resolved target) ∧
      program.HoldsClassifier target
  endTargets : ∀ associationEnd, program.associationEnds.Holds associationEnd →
    ∃ target, (program.associationEnds.get associationEnd).target = .resolved target ∧
      program.classes.Holds target
  /-- An end belongs to the class that the opposite end leads to. -/
  endOwners : ∀ associationEnd, program.associationEnds.Holds associationEnd →
    ∃ owner, (program.associationEnds.get associationEnd).owner = some owner ∧
      (program.associationEnds.get (program.associationEnds.get associationEnd).opposite).target =
        .resolved owner ∧ program.classes.Holds owner
  projections : ∀ projection, program.projections.Holds projection →
    ∃ classifier, (program.projections.get projection).classifier = some (.resolved classifier) ∧
      program.HoldsClassifier classifier ∧
      program.ElementsTyped classifier (program.projections.get projection).children
  groups : ∀ group, program.serviceGroups.Holds group →
    ∃ klass, (program.serviceGroups.get group).klass = some (.resolved klass) ∧
      program.classes.Holds klass
  /-- The projection of a service is on the class of the group or on a supertype. -/
  serviceProjections : ∀ service, program.services.Holds service →
    ∀ found ∈ (program.services.get service).projection, ∃ projection projected klass,
      found = .resolved projection ∧ program.projections.Holds projection ∧
      (program.projections.get projection).classifier = some (.resolved projected) ∧
      (program.serviceGroups.get (program.urls.get (program.services.get service).url).group).klass
        = some (.resolved klass) ∧
      program.conforms (.klass klass) projected
  /-- A relationship is about the class that the source end leads to. -/
  relationships : ∀ association, program.associations.Holds association →
    ∃ criteria this, (program.associations.get association).relationship = some criteria ∧
      program.endTarget (program.associations.get association).source = .resolved this ∧
      program.CriteriaTyped this [] criteria
  foreignKeys : ∀ association, program.associations.Holds association →
    ∀ key ∈ (program.associations.get association).foreignKeys,
      program.associationEnds.Holds key.associationEnd ∧
        program.properties.Holds key.foreignKey ∧ program.properties.Holds key.key
  /-- An end with an ordering is to-many; the ordering is about the class it leads to. -/
  endOrderings : ∀ associationEnd, program.associationEnds.Holds associationEnd →
    ∀ ordering ∈ (program.associationEnds.get associationEnd).orderBy,
      (program.associationEnds.get associationEnd).declaration.multiplicity.isToOne = false ∧
      ∃ this, program.endTarget associationEnd = .resolved this ∧
        program.OrderByTyped this ordering
  /-- Clauses are about the class of the group and use parameters of the url. -/
  clauses : ∀ service, program.services.Holds service →
    ∀ clause ∈ (program.services.get service).clauses, ∃ criteria klass,
      clause.criteria = some criteria ∧
      (program.serviceGroups.get (program.urls.get (program.services.get service).url).group).klass
        = some (.resolved klass) ∧
      program.CriteriaTyped (.klass klass)
        (program.urls.get (program.services.get service).url).parameters criteria
  serviceOrderings : ∀ service, program.services.Holds service →
    ∀ ordering ∈ (program.services.get service).orderBy, ∃ klass,
      (program.serviceGroups.get (program.urls.get (program.services.get service).url).group).klass
        = some (.resolved klass) ∧
      program.OrderByTyped (.klass klass) ordering

/-- The properties of an equation are there. -/
theorem holds_of_equationPair? {program : Program} {this opposite : ClassifierIndex}
    {parameters : List ParameterIndex} {source target : Value}
    {pair : PropertyIndex × PropertyIndex}
    (typedSource : program.ValueTyped this parameters source)
    (typedTarget : program.ValueTyped this parameters target)
    (joined : Association.equationPair? opposite source target = some pair) :
    program.properties.Holds pair.1 ∧ program.properties.Holds pair.2 := by
  have holds {path : MemberPath} (typed : program.ValueTyped this parameters (.member path))
      {property : PropertyIndex} (reached : path.property = .resolved property) :
      program.properties.Holds property := by
    obtain ⟨start, last, other, typedPath⟩ := typed
    rw [typedPath.reaches, Resolution.resolved.injEq] at reached
    rw [← reached]
    exact typedPath.held
  obtain ⟨property, other⟩ := pair
  obtain ⟨first, second, sides, -, reachedFirst, reachedSecond⟩ :=
    Association.equationPair?_eq_some_iff.mp joined
  rcases (Association.thisAndOther?_eq_some_iff.mp sides).1 with ⟨rfl, rfl⟩ | ⟨rfl, rfl⟩
  · exact ⟨holds typedSource reachedFirst, holds typedTarget reachedSecond⟩
  · exact ⟨holds typedTarget reachedFirst, holds typedSource reachedSecond⟩

/-- The properties that a direct join pairs are there. -/
theorem CriteriaTyped.holds_of_mem_pairs {program : Program} {this opposite : ClassifierIndex}
    {parameters : List ParameterIndex} {criteria : Criteria}
    (typed : program.CriteriaTyped this parameters criteria)
    {pairs : List (PropertyIndex × PropertyIndex)}
    (joined : Association.equationPairs? opposite criteria = some pairs) :
    ∀ pair ∈ pairs, program.properties.Holds pair.1 ∧ program.properties.Holds pair.2 := by
  induction criteria generalizing pairs with
  | all _ | or _ _ | edgePoint _ _ => cases joined
  | and left right leftHolds rightHolds =>
    simp only [Association.equationPairs?, Option.bind_eq_bind, Option.bind_eq_some_iff,
      Option.pure_def, Option.some.injEq] at joined
    obtain ⟨first, leftJoined, second, rightJoined, rfl⟩ := joined
    intro pair member
    rcases List.mem_append.mp member with inLeft | inRight
    · exact leftHolds typed.1 leftJoined pair inLeft
    · exact rightHolds typed.2 rightJoined pair inRight
  | operator source comparison target span =>
    cases comparison with
    | equal =>
      simp only [Association.equationPairs?, Option.bind_eq_bind, Option.bind_eq_some_iff,
        Option.pure_def, Option.some.injEq] at joined
      obtain ⟨pair, paired, rfl⟩ := joined
      intro other member
      rw [List.mem_singleton.mp member]
      exact holds_of_equationPair? typed.1 typed.2 paired
    | _ => cases joined

/-- The foreign keys that a classified association has. -/
theorem holds_of_mem_foreignKeys {program : Program} {association : Resolved.Association}
    {pairs : List (PropertyIndex × PropertyIndex)}
    (heldSource : program.associationEnds.Holds association.source)
    (heldTarget : program.associationEnds.Holds association.target)
    (held : ∀ pair ∈ pairs, program.properties.Holds pair.1 ∧ program.properties.Holds pair.2) :
    ∀ key ∈ Association.foreignKeys program association pairs,
      program.associationEnds.Holds key.associationEnd ∧
        program.properties.Holds key.foreignKey ∧ program.properties.Holds key.key := by
  intro key member
  simp only [Association.foreignKeys] at member
  split at member
  · obtain ⟨pair, isPair, rfl⟩ := List.mem_map.mp member
    exact ⟨heldSource, (held pair isPair).2, (held pair isPair).1⟩
  · split at member
    · obtain ⟨pair, isPair, rfl⟩ := List.mem_map.mp member
      exact ⟨heldTarget, (held pair isPair).1, (held pair isPair).2⟩
    · cases member

end Program

namespace Workspace

variable {workspace : Workspace}

/-- What the rules about repeated names say, rule by rule. -/
structure NamesApart (workspace : Workspace) : Prop where
  topLevel : Quiet (Uniqueness.topLevelNames workspace)
  members : ∀ classifier, workspace.program.HoldsClassifier classifier →
    Quiet (Uniqueness.members workspace.program classifier)
  parameters : ∀ group, workspace.program.serviceGroups.Holds group →
    ∀ url ∈ (workspace.program.serviceGroups.get group).urls,
      Quiet (Uniqueness.parameters workspace.program (workspace.program.urls.get url))

theorem ErrorFree.namesApart (free : workspace.ErrorFree) : workspace.NamesApart := by
  simp only [ErrorFree, findings, Uniqueness.findings, Quiet.append, Quiet.flatMap] at free
  obtain ⟨⟨⟨⟨⟨⟨⟨⟨⟨names, -⟩, classifiers⟩, -⟩, -⟩, -⟩, groups⟩, -⟩, -⟩, -⟩ := free
  refine ⟨names, ?_, ?_⟩
  · intro classifier holds
    have rules := classifiers classifier (Program.mem_classifiers.mpr holds)
    simp only [Uniqueness.classifier, Quiet.append] at rules
    obtain ⟨⟨⟨⟨members, -⟩, -⟩, -⟩, -⟩ := rules
    exact members
  · intro group holds url member
    have rules := groups _ (Arena.get_mem_records holds)
    simp only [Uniqueness.group, Quiet.append, Quiet.flatMap] at rules
    exact (rules.2 _ (List.mem_map_of_mem member)).1

/-- What the other rules say about lookups, rule by rule. -/
structure ReferencesFound (workspace : Workspace) : Prop where
  inheritance : ∀ classifier, workspace.program.HoldsClassifier classifier →
    Quiet (Rules.inheritanceOf workspace classifier)
  types : Quiet (Rules.memberTypes workspace.program)
  criteria : Quiet (Rules.criteria workspace.program)
  projections : Quiet (Rules.projections workspace.program)
  services : Quiet (Rules.services workspace)

theorem ErrorFree.referencesFound (free : workspace.ErrorFree) : workspace.ReferencesFound := by
  simp only [ErrorFree, findings, Rules.findings, Rules.inheritance, Quiet.append,
    Quiet.flatMap] at free
  obtain ⟨-, ⟨⟨⟨⟨-, inheritance, types⟩, -⟩, criteria⟩, projections⟩, services⟩ := free
  exact ⟨fun classifier holds => inheritance classifier (Program.mem_classifiers.mpr holds),
    types, criteria, projections, services⟩

end Workspace

section ErrorFree

variable {workspace : Workspace} {units : List CompilationUnit}
  {recorded : List RecordedDeclaration} {fragments : List CompilationUnit}

namespace Workspace.Analysed

/-- No classifier has two members with one name. -/
theorem membersApart (free : workspace.ErrorFree) (classifier : ClassifierIndex) :
    workspace.program.MembersApart classifier := by
  by_cases holds : workspace.program.HoldsClassifier classifier
  · exact Program.membersApart_of_quiet (free.namesApart.members classifier holds)
  · exact Program.membersApart_of_not_holds holds

variable (analysed : workspace.Analysed units recorded fragments) (free : workspace.ErrorFree)
include analysed free

theorem namedApart : workspace.program.NamedApart :=
  Program.namedApart_of_quiet analysed.names free.namesApart.topLevel

/-- No url has two parameters with one name. -/
theorem parametersApart {url : UrlIndex} (holds : workspace.program.urls.Holds url) :
    ((workspace.program.urls.get url).parameters.map fun parameter =>
      (workspace.program.parameters.get parameter).name.name).Nodup := by
  have heldGroup := analysed.coherent.urls.held_owner url holds
  have listed := (analysed.coherent.urls.mem_listed heldGroup (by simp)).mpr ⟨holds, rfl⟩
  have distinct := (free.namesApart.parameters _ heldGroup url listed).nodup_of_repeated
    fun _ => rfl
  rw [List.map_map] at distinct
  exact distinct

/-- A class that is not missing is found. -/
theorem class_found {name : String} (found : workspace.registry.classes.find name ≠ .notFound) :
    (workspace.registry.classes.find name).Finds workspace.program.classes.Holds := by
  obtain ⟨klass, resolved⟩ := Resolution.exists_resolved found
    (analysed.names.classes_ne_ambiguous (analysed.namedApart free) _)
  exact ⟨klass, resolved, (analysed.names.classes.of_find resolved).1⟩

/-- A classifier that is not missing is found. -/
theorem classifier_found {name : String}
    (found : workspace.registry.findClassifier name ≠ .notFound) :
    (workspace.registry.findClassifier name).Finds workspace.program.HoldsClassifier := by
  obtain ⟨classifier, resolved⟩ := Resolution.exists_resolved found
    (analysed.names.findClassifier_ne_ambiguous (analysed.namedApart free) _)
  exact ⟨classifier, resolved, (analysed.names.of_findClassifier resolved).1⟩

/-- Every interface that a classifier names is found. -/
theorem interfaces_found {classifier : ClassifierIndex}
    (holds : workspace.program.HoldsClassifier classifier) :
    ∀ found ∈ (workspace.program.classifier classifier).interfaces,
      found.Finds workspace.program.interfaces.Holds := by
  have rules := free.referencesFound.inheritance classifier holds
  simp only [Rules.inheritanceOf, Quiet.append, Quiet.flatMap] at rules
  obtain ⟨⟨each, -⟩, -⟩ := rules
  rw [analysed.declarations.interfaces_eq holds, Registry.findInterfaces] at each ⊢
  intro found member
  obtain ⟨name, declared, rfl⟩ := List.mem_map.mp member
  have rule := each _ (mem_zip_map declared)
  cases outcome : workspace.registry.interfaces.find name.name with
  | ambiguous =>
    exact absurd outcome (analysed.names.interfaces_ne_ambiguous (analysed.namedApart free) _)
  | notFound =>
    simp only [outcome, Rules.implementedInterface] at rule
    split at rule <;> simp [Rules.unknownType, Problem.kind, ProblemKind.isWarning] at rule
  | resolved interface =>
    exact ⟨interface, rfl, (analysed.names.interfaces.of_find outcome).1⟩

/-- The superclass that a class names is found. -/
theorem superclass_found {klass : ClassIndex} (holds : workspace.program.classes.Holds klass) :
    ∀ found ∈ (workspace.program.classes.get klass).superclass,
      found.Finds workspace.program.classes.Holds := by
  have rules := free.referencesFound.inheritance (.klass klass) holds
  simp only [Rules.inheritanceOf, Quiet.append] at rules
  obtain ⟨-, rule⟩ := rules
  have linked := analysed.declarations.superclasses klass holds
  intro found member
  cases declared : (workspace.program.classes.get klass).declaredSuperclass with
  | none =>
    rw [linked, declared] at member
    cases member
  | some name =>
    rw [declared, Option.map_some] at linked
    rw [linked, Option.mem_some] at member
    subst member
    apply analysed.class_found free
    intro missing
    simp only [Rules.superclass, declared, linked, missing] at rule
    split at rule <;> simp [Rules.unknownType, Problem.kind, ProblemKind.isWarning] at rule

/-- The enumeration of a type is found. -/
theorem type_found {unit : UnitId} {type : Syntax.PropertyType}
    (quiet : Quiet (Rules.unknownEnumeration unit type
      (workspace.registry.findTypeEnumeration type))) :
    workspace.program.TypeFound type (workspace.registry.findTypeEnumeration type) := by
  rintro name rfl
  cases outcome : workspace.registry.enumerations.find name.name with
  | ambiguous =>
    exact absurd outcome (analysed.names.enumerations_ne_ambiguous (analysed.namedApart free) _)
  | notFound =>
    simp [Registry.findTypeEnumeration, outcome, Rules.unknownEnumeration, Rules.unknownType,
      Problem.kind, ProblemKind.isWarning] at quiet
  | resolved enumeration =>
    refine ⟨enumeration, ?_, (analysed.names.enumerations.of_find outcome).1⟩
    rw [Registry.findTypeEnumeration, outcome]

/-- End signatures lead to classifiers. -/
theorem signatureTarget_found {signature : EndSignatureIndex}
    (holds : workspace.program.endSignatures.Holds signature) :
    ∃ target, (workspace.program.endSignatures.get signature).target = some (.resolved target) ∧
      workspace.program.HoldsClassifier target := by
  have rules := free.referencesFound.types
  simp only [Rules.memberTypes, Quiet.append, Quiet.flatMap] at rules
  obtain ⟨⟨⟨-, signatures⟩, -⟩, -⟩ := rules
  have rule := signatures _ (Arena.get_mem_records holds)
  rw [analysed.declarations.endSignatures signature holds] at rule ⊢
  simp only [Option.some.injEq]
  apply analysed.classifier_found free
  intro missing
  simp [missing, Rules.unknownType, Problem.kind, ProblemKind.isWarning] at rule

/-- Association ends lead to classes. -/
theorem endTarget_found {associationEnd : AssociationEndIndex}
    (holds : workspace.program.associationEnds.Holds associationEnd) :
    ∃ target, (workspace.program.associationEnds.get associationEnd).target = .resolved target ∧
      workspace.program.classes.Holds target := by
  have rules := free.referencesFound.types
  simp only [Rules.memberTypes, Quiet.append, Quiet.flatMap] at rules
  obtain ⟨⟨-, ends⟩, -⟩ := rules
  have rule := ends _ (Arena.get_mem_records holds)
  rw [analysed.declarations.endTargets associationEnd holds] at rule ⊢
  apply analysed.class_found free
  intro missing
  simp [missing, Resolution.isNotFound, Rules.unknownType, Problem.kind,
    ProblemKind.isWarning] at rule

/-- Projections are on classifiers. -/
theorem projectionClassifier_found {projection : ProjectionIndex}
    (holds : workspace.program.projections.Holds projection) :
    ∃ classifier, workspace.registry.findClassifier
        (workspace.program.projections.get projection).classifierName.name =
          .resolved classifier ∧
      workspace.program.HoldsClassifier classifier := by
  have rules := free.referencesFound.types
  simp only [Rules.memberTypes, Quiet.append, Quiet.flatMap] at rules
  have rule := rules.2 _ (Arena.get_mem_records holds)
  rw [analysed.references.projections projection holds] at rule
  apply analysed.classifier_found free
  intro missing
  simp [missing, Rules.unknownType, Problem.kind, ProblemKind.isWarning] at rule

/-- Service groups are on classes. -/
theorem groupClass_found {group : ServiceGroupIndex}
    (holds : workspace.program.serviceGroups.Holds group) :
    ∃ klass, workspace.registry.classes.find
        (workspace.program.serviceGroups.get group).className.name = .resolved klass ∧
      workspace.program.classes.Holds klass := by
  have rules := free.referencesFound.services
  simp only [Rules.services, Quiet.flatMap] at rules
  have rule := rules _ (Arena.get_mem_records holds)
  simp only [Rules.groupRules, Quiet.append] at rule
  obtain ⟨⟨onClass, -⟩, -⟩ := rule
  rw [Rules.groupClass, analysed.references.groups group holds] at onClass
  apply analysed.class_found free
  intro missing
  simp only [missing] at onClass
  split at onClass <;> simp [Problem.kind, ProblemKind.isWarning] at onClass

/-- Paths can be followed. -/
theorem navigable : workspace.program.Navigable workspace.registry where
  coherent := analysed.coherent
  names := analysed.names
  endsListed := analysed.declarations.classEnds
  named := analysed.namedApart free
  members := membersApart free
  endTargets _ := analysed.endTarget_found free
  signatureTargets _ := analysed.signatureTarget_found free

/-- The class that a service is about. -/
theorem serviceClass_found {service : ServiceIndex}
    (holds : workspace.program.services.Holds service) :
    ∃ klass, workspace.program.serviceClass workspace.registry
        (workspace.program.services.get service) = .resolved (.klass klass) ∧
      (workspace.program.serviceGroups.get
        (workspace.program.urls.get (workspace.program.services.get service).url).group).klass =
          some (.resolved klass) ∧
      workspace.program.classes.Holds klass := by
  have heldUrl := analysed.coherent.services.held_owner service holds
  have heldGroup := analysed.coherent.urls.held_owner _ heldUrl
  obtain ⟨klass, found, holdsClass⟩ := analysed.groupClass_found free heldGroup
  refine ⟨klass, ?_, ?_, holdsClass⟩
  · rw [Program.serviceClass, Service.className, found]
    rfl
  · rw [analysed.references.groups _ heldGroup, found]

/-- The relationship of an association is well typed. -/
theorem relationship_typed {association : AssociationIndex}
    (holds : workspace.program.associations.Holds association) :
    ∃ criteria this,
      (workspace.program.associations.get association).relationship = some criteria ∧
      workspace.program.endTarget (workspace.program.associations.get association).source =
        .resolved this ∧
      workspace.program.CriteriaTyped this [] criteria := by
  have heldSource := analysed.coherent.ends.holds_source holds
  obtain ⟨target, leads, heldTarget⟩ := analysed.endTarget_found free heldSource
  have this : workspace.program.endTarget (workspace.program.associations.get association).source =
      .resolved (.klass target) := by
    rw [Program.endTarget, leads]
    rfl
  have rules := free.referencesFound.criteria
  simp only [Rules.criteria, Quiet.append, Quiet.flatMap] at rules
  obtain ⟨⟨⟨relationships, -⟩, -⟩, -⟩ := rules
  have rule := relationships _ (Arena.get_mem_records holds)
  have linked := analysed.references.relationships association holds
  rw [linked, Option.elim_some, Program.relationshipScope, this] at rule
  rw [Program.relationshipScope, this] at linked
  have heldThis : workspace.program.HoldsClassifier (.klass target) := heldTarget
  exact ⟨_, _, linked, this, (analysed.navigable free).criteriaTyped_of_quiet heldThis
    (by simp) (by simp) rule⟩

/-- The ordering of an end is well typed and the end is to-many. -/
theorem endOrdering_typed {associationEnd : AssociationEndIndex}
    (holds : workspace.program.associationEnds.Holds associationEnd) :
    ∀ ordering ∈ (workspace.program.associationEnds.get associationEnd).orderBy,
      (workspace.program.associationEnds.get associationEnd).declaration.multiplicity.isToOne =
        false ∧
      ∃ this, workspace.program.endTarget associationEnd = .resolved this ∧
        workspace.program.OrderByTyped this ordering := by
  obtain ⟨target, leads, heldTarget⟩ := analysed.endTarget_found free holds
  have this : workspace.program.endTarget associationEnd = .resolved (.klass target) := by
    rw [Program.endTarget, leads]
    rfl
  have heldThis : workspace.program.HoldsClassifier (.klass target) := heldTarget
  have rules := free.referencesFound.criteria
  simp only [Rules.criteria, Quiet.append, Quiet.flatMap] at rules
  obtain ⟨⟨-, orderings⟩, -⟩ := rules
  have rule := orderings _ (Arena.get_mem_records holds)
  intro ordering member
  rw [Rules.endOrdering, Option.mem_def.mp member, Option.elim_some, Quiet.append] at rule
  rw [analysed.references.endOrderings associationEnd holds, this] at member
  obtain ⟨declared, -, rfl⟩ := Option.map_eq_some_iff.mp member
  constructor
  · by_contra toOne
    rw [Bool.not_eq_false] at toOne
    simp [toOne, Problem.kind, ProblemKind.isWarning] at rule
  · exact ⟨_, this, (analysed.navigable free).orderByTyped_of_quiet heldThis rule.2⟩

/-- The clauses of a service are well typed. -/
theorem clause_typed {service : ServiceIndex} (holds : workspace.program.services.Holds service) :
    ∀ clause ∈ (workspace.program.services.get service).clauses, ∃ criteria klass,
      clause.criteria = some criteria ∧
      (workspace.program.serviceGroups.get
        (workspace.program.urls.get (workspace.program.services.get service).url).group).klass =
          some (.resolved klass) ∧
      workspace.program.CriteriaTyped (.klass klass)
        (workspace.program.urls.get (workspace.program.services.get service).url).parameters
        criteria := by
  obtain ⟨klass, about, onClass, holdsClass⟩ := analysed.serviceClass_found free holds
  have heldUrl := analysed.coherent.services.held_owner service holds
  have rules := free.referencesFound.criteria
  simp only [Rules.criteria, Quiet.append, Quiet.flatMap] at rules
  obtain ⟨⟨⟨-, services⟩, -⟩, -⟩ := rules
  have rule := services _ (Arena.get_mem_records holds)
  simp only [Rules.serviceCriteria, Quiet.append, Quiet.flatMap] at rule
  intro clause member
  have linked := analysed.references.clauses service holds clause member
  have clauseRule := rule.1 clause member
  rw [linked, Option.elim_some, Program.clauseScope, about] at clauseRule
  rw [Program.clauseScope, about] at linked
  have heldThis : workspace.program.HoldsClassifier (.klass klass) := holdsClass
  refine ⟨_, klass, linked, onClass, (analysed.navigable free).criteriaTyped_of_quiet heldThis ?_
    (analysed.parametersApart free heldUrl) clauseRule⟩
  intro parameter listed
  exact ((analysed.coherent.parameters.mem_listed heldUrl (by simp)).mp listed).1

/-- The ordering of a service is well typed. -/
theorem serviceOrdering_typed {service : ServiceIndex}
    (holds : workspace.program.services.Holds service) :
    ∀ ordering ∈ (workspace.program.services.get service).orderBy, ∃ klass,
      (workspace.program.serviceGroups.get
        (workspace.program.urls.get (workspace.program.services.get service).url).group).klass =
          some (.resolved klass) ∧
      workspace.program.OrderByTyped (.klass klass) ordering := by
  obtain ⟨klass, about, onClass, holdsClass⟩ := analysed.serviceClass_found free holds
  have heldThis : workspace.program.HoldsClassifier (.klass klass) := holdsClass
  have rules := free.referencesFound.criteria
  simp only [Rules.criteria, Quiet.append, Quiet.flatMap] at rules
  obtain ⟨⟨⟨-, services⟩, -⟩, -⟩ := rules
  have rule := services _ (Arena.get_mem_records holds)
  simp only [Rules.serviceCriteria, Quiet.append] at rule
  intro ordering member
  have orderingRule := rule.2
  rw [Option.mem_def.mp member, Option.elim_some] at orderingRule
  rw [analysed.references.serviceOrderings service holds, about] at member
  obtain ⟨declared, -, rfl⟩ := Option.map_eq_some_iff.mp member
  exact ⟨klass, onClass, (analysed.navigable free).orderByTyped_of_quiet heldThis orderingRule⟩

/-- Projections are well typed. -/
theorem projection_typed {projection : ProjectionIndex}
    (holds : workspace.program.projections.Holds projection) :
    ∃ classifier,
      (workspace.program.projections.get projection).classifier = some (.resolved classifier) ∧
      workspace.program.HoldsClassifier classifier ∧
      workspace.program.ElementsTyped classifier
        (workspace.program.projections.get projection).children := by
  have placed : workspace.program.ProjectionsPlaced := by
    intro index held
    obtain ⟨classifier, found, -⟩ := analysed.projectionClassifier_found free held
    exact ⟨classifier, by rw [analysed.references.projections index held, found]⟩
  obtain ⟨classifier, found, heldClassifier⟩ := analysed.projectionClassifier_found free holds
  have isOn := analysed.references.projections projection holds
  rw [found] at isOn
  have rules := free.referencesFound.projections
  simp only [Rules.projections, Quiet.flatMap] at rules
  have rule := rules _ (Arena.get_mem_records holds)
  have linked := analysed.references.children projection holds
  rw [found] at linked
  rw [Rules.projectionRules, isOn, if_pos (by simp [Resolution.isResolved]), linked] at rule
  refine ⟨classifier, isOn, heldClassifier, ?_⟩
  rw [linked]
  exact (analysed.navigable free).elementsTyped_of_quiet placed classifier _ _ rule

/-- Foreign keys refer to properties and ends that are there. -/
theorem foreignKeys_held {association : AssociationIndex}
    (holds : workspace.program.associations.Holds association) :
    ∀ key ∈ (workspace.program.associations.get association).foreignKeys,
      workspace.program.associationEnds.Holds key.associationEnd ∧
        workspace.program.properties.Holds key.foreignKey ∧
        workspace.program.properties.Holds key.key := by
  obtain ⟨criteria, this, relationship, -, typed⟩ := analysed.relationship_typed free holds
  rw [← analysed.references.joins association holds]
  simp only [Association.classify, relationship]
  split
  · rintro _ ⟨⟩
  · next pairs joined =>
    obtain ⟨opposite, -, paired⟩ := Option.bind_eq_some_iff.mp joined
    exact Program.holds_of_mem_foreignKeys (analysed.coherent.ends.holds_source holds)
      (analysed.coherent.ends.holds_target holds) (typed.holds_of_mem_pairs paired)

/-- The projection of a service is found and fits. -/
theorem serviceProjection_found {service : ServiceIndex}
    (holds : workspace.program.services.Holds service) :
    ∀ found ∈ (workspace.program.services.get service).projection, ∃ projection projected klass,
      found = .resolved projection ∧ workspace.program.projections.Holds projection ∧
      (workspace.program.projections.get projection).classifier = some (.resolved projected) ∧
      (workspace.program.serviceGroups.get
        (workspace.program.urls.get (workspace.program.services.get service).url).group).klass =
          some (.resolved klass) ∧
      workspace.program.conforms (.klass klass) projected := by
  obtain ⟨klass, -, onClass, -⟩ := analysed.serviceClass_found free holds
  have heldUrl := analysed.coherent.services.held_owner service holds
  have listed := (analysed.coherent.services.mem_listed heldUrl (by simp)).mpr ⟨holds, rfl⟩
  have heldGroup := analysed.coherent.urls.held_owner _ heldUrl
  have listedUrl := (analysed.coherent.urls.mem_listed heldGroup (by simp)).mpr ⟨heldUrl, rfl⟩
  have rules := free.referencesFound.services
  simp only [Rules.services, Quiet.flatMap] at rules
  have rule := rules _ (Arena.get_mem_records heldGroup)
  simp only [Rules.groupRules, Quiet.append, Quiet.flatMap] at rule
  have fits := (rule.2 _ (List.mem_map_of_mem listedUrl) _ (List.mem_map_of_mem listed)).2
  have linked := analysed.references.serviceProjections service holds
  intro found member
  rw [linked] at member
  obtain ⟨name, declared, rfl⟩ := Option.map_eq_some_iff.mp member
  rw [declared, Option.map_some] at linked
  simp only [Rules.serviceProjection, declared, linked, onClass] at fits
  cases outcome : workspace.registry.projections.find name.name with
  | ambiguous =>
    exact absurd outcome (analysed.names.projections_ne_ambiguous (analysed.namedApart free) _)
  | notFound => simp [outcome, Problem.kind, ProblemKind.isWarning] at fits
  | resolved projection =>
    have heldProjection := (analysed.names.projections.of_find outcome).1
    obtain ⟨projected, isOn, -⟩ := analysed.projection_typed free heldProjection
    refine ⟨projection, projected, klass, rfl, heldProjection, isOn, onClass, ?_⟩
    by_contra apart
    simp [outcome, isOn, apart, Problem.kind, ProblemKind.isWarning] at fits

/-- A program without errors is sound. -/
theorem sound : workspace.program.Sound where
  coherent := analysed.coherent
  endsListed := analysed.declarations.classEnds
  named := analysed.namedApart free
  members := membersApart free
  interfaces _ := analysed.interfaces_found free
  lookedUp _ holds := by
    rw [analysed.declarations.interfaces_eq holds, Registry.findInterfaces, List.length_map]
  superclasses _ := analysed.superclass_found free
  propertyTypes property holds := by
    have rules := free.referencesFound.types
    simp only [Rules.memberTypes, Quiet.append, Quiet.flatMap] at rules
    obtain ⟨⟨⟨⟨properties, -⟩, -⟩, -⟩, -⟩ := rules
    have rule := properties _ (Arena.get_mem_records holds)
    rw [analysed.declarations.properties property holds] at rule ⊢
    exact analysed.type_found free rule
  parameterTypes parameter holds := by
    have rules := free.referencesFound.types
    simp only [Rules.memberTypes, Quiet.append, Quiet.flatMap] at rules
    obtain ⟨⟨⟨⟨-, parameters⟩, -⟩, -⟩, -⟩ := rules
    have rule := parameters _ (Arena.get_mem_records holds)
    rw [analysed.references.parameters parameter holds] at rule ⊢
    exact analysed.type_found free rule
  signatureTargets _ := analysed.signatureTarget_found free
  endTargets _ := analysed.endTarget_found free
  endOwners associationEnd holds := by
    obtain ⟨owner, leads, holdsOwner⟩ :=
      analysed.endTarget_found free (analysed.coherent.ends.holds_opposite holds)
    refine ⟨owner, ?_, leads, holdsOwner⟩
    rw [analysed.declarations.endOwners associationEnd holds, leads]
    rfl
  projections _ := analysed.projection_typed free
  groups group holds := by
    obtain ⟨klass, found, holdsClass⟩ := analysed.groupClass_found free holds
    exact ⟨klass, by rw [analysed.references.groups group holds, found], holdsClass⟩
  serviceProjections _ := analysed.serviceProjection_found free
  relationships _ := analysed.relationship_typed free
  foreignKeys _ := analysed.foreignKeys_held free
  endOrderings _ := analysed.endOrdering_typed free
  clauses _ := analysed.clause_typed free
  serviceOrderings _ := analysed.serviceOrdering_typed free

end Workspace.Analysed

end ErrorFree
end DomainLang

