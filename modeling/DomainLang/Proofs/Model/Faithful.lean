import DomainLang.Proofs.Model.DeclarationOrder
import DomainLang.Proofs.Model.Writing

/-!
# Models say what is written

Every declaration is found in the model under its name, and writing the element that is found
gives back the declaration without ids and places. What was inferred comes after what is
written: the clauses of a service are those written and then at most one more, and the
properties of a classifier are those written and then those of the fragments that expand it.
-/

namespace DomainLang

namespace DomainModel

open Model

/-- The clauses of a service are those written, then the inferred one if there is one. -/
def ClausesOrdered (model : DomainModel) (service : Model.Service) : Prop :=
  ∃ inferred : Option Clause,
    service.clauses = service.clauses.filter (! ·.inferred) ++ inferred.toList ∧
    ∀ clause ∈ inferred, clause.inferred ∧ ∃ versionEnd,
      Service.versionClause service.verb versionEnd = some (model.writeClause clause)

/-- A classifier declares the written members, and after its written properties those that were
inferred. -/
structure MembersRestated (model : DomainModel) (id : ClassifierId)
    (written inferred : List Syntax.Member) : Prop where
  properties : (model.declaredProperties id).map (fun property =>
      model.writeProperty (model.parts.property property)) =
    written.filterMap Syntax.Member.property? ++ inferred.filterMap Syntax.Member.property?
  endSignatures : (model.endSignatures id).map (fun signature =>
      model.writeSignature (model.parts.endSignature signature)) =
    written.filterMap Syntax.Member.endSignature?

/-- A declaration is found under its name, with what is written in it and the inferred members. -/
def Restates (model : DomainModel) (inferred : List Syntax.Member) : Syntax.Declaration → Prop
  | .enumeration declaration => ∃ id,
      model.findEnumeration declaration.name.name = some id ∧
      writeEnumeration (model.parts.enumeration id) = declaration
  | .interface declaration => ∃ id,
      model.findInterface declaration.name.name = some id ∧
      model.writeInterface (model.parts.interface id) = { declaration with members := [] } ∧
      model.MembersRestated (.interface id) declaration.members inferred
  | .klass declaration => ∃ id,
      model.findClass declaration.name.name = some id ∧
      model.writeClass (model.parts.klass id) = { declaration with members := [] } ∧
      model.MembersRestated (.klass id) declaration.members inferred
  | .association declaration => ∃ id,
      model.findAssociation declaration.name.name = some id ∧
      model.writeAssociation (model.parts.association id) = declaration
  | .projection declaration => ∃ id,
      model.findProjection declaration.name.name = some id ∧
      model.writeProjection (model.parts.projection id) = declaration ∧
      model.ElementsNamed (model.parts.projection id).children
  | .serviceGroup declaration => ∃ id,
      model.findServiceGroup declaration.name.name = some id ∧
      model.writeServiceGroup (model.parts.serviceGroup id) = declaration ∧
      ∀ url ∈ (model.parts.serviceGroup id).urls, ∀ service ∈ (model.parts.url url).services,
        model.ClausesOrdered (model.parts.service service)

end DomainModel

/-- The modifiers of an element are those written. -/
theorem map_bare_modifiers (marks : List Syntax.ModifierMark) :
    (Assembly.modifiers marks).map Syntax.ModifierMark.bare =
      marks.map Syntax.ModifierMark.stripped := by
  rw [Assembly.modifiers, List.map_map]
  rfl

/-- Stripping members strips their end signatures. -/
theorem map_stripped_endSignature? (members : List Syntax.Member) :
    (members.filterMap Syntax.Member.endSignature?).map Syntax.EndSignature.stripped =
      (members.map Syntax.Member.stripped).filterMap Syntax.Member.endSignature? := by
  rw [List.map_filterMap, List.filterMap_map]
  congr 1
  funext member
  cases member <;> rfl

/-- A segment of a path with parameters as they are written. -/
def Resolved.UrlSegment.spell (view : ParameterIndex → Syntax.Parameter) :
    Resolved.UrlSegment → Syntax.UrlSegment
  | constant text => .constant (.bare text)
  | parameter index => .parameter (view index)

/-- The segments of a path are put together from its constants and its parameters. -/
theorem map_spell {path : List Resolved.UrlSegment} {written : List Syntax.UrlSegment}
    {query : List ParameterIndex} {writtenQuery : List Syntax.Parameter}
    {view : ParameterIndex → Syntax.Parameter}
    (constants : path.map Resolved.UrlSegment.constant? =
      written.map Syntax.UrlSegment.constant?)
    (parameters : (path.filterMap Resolved.UrlSegment.parameter? ++ query).map view =
      (written.flatMap Syntax.UrlSegment.parameters ++ writtenQuery).map
        Syntax.Parameter.stripped) :
    path.map (Resolved.UrlSegment.spell view) = written.map Syntax.UrlSegment.stripped ∧
      query.map view = writtenQuery.map Syntax.Parameter.stripped := by
  induction path generalizing written with
  | nil =>
    rw [List.map_nil] at constants
    rw [List.map_eq_nil_iff.mp constants.symm] at parameters ⊢
    exact ⟨rfl, parameters⟩
  | cons segment rest ih =>
    obtain ⟨declared, others, rfl, first, remaining⟩ := List.map_eq_cons_iff.mp constants.symm
    cases segment with
    | constant text =>
      cases declared with
      | parameter => cases first
      | constant name =>
        obtain rfl := Option.some.inj first
        obtain ⟨sameRest, sameQuery⟩ := ih remaining.symm parameters
        refine ⟨?_, sameQuery⟩
        rw [List.map_cons, List.map_cons, sameRest]
        rfl
    | parameter index =>
      cases declared with
      | constant => cases first
      | parameter declaration =>
        obtain ⟨same, parameters⟩ := List.cons.inj parameters
        obtain ⟨sameRest, sameQuery⟩ := ih remaining.symm parameters
        refine ⟨?_, sameQuery⟩
        rw [List.map_cons, List.map_cons, sameRest, Resolved.UrlSegment.spell, same]
        rfl

/-- The segments of a path are assembled one by one. -/
theorem DomainModel.write_segments (model : DomainModel) {allocation : Allocation}
    {path : List Resolved.UrlSegment} {results : List Model.UrlSegment}
    (made : path.mapM (Assembly.urlSegment allocation) = .ok results) :
    results.map model.writeSegment = path.map (Resolved.UrlSegment.spell fun parameter =>
      model.writeParameter (model.parts.parameter
        (Allocation.position allocation.parameters parameter))) := by
  rw [mapM_eq_ok] at made
  induction made with
  | nil => rfl
  | @cons segment _ _ _ here _ ih =>
    rw [List.map_cons, List.map_cons, ih]
    cases segment with
    | constant text =>
      cases here
      rfl
    | parameter parameter =>
      simp only [Assembly.urlSegment, bind_eq_ok, pure_eq_ok, Allocation.idOf_eq_ok] at here
      obtain ⟨_, ⟨-, rfl⟩, rfl⟩ := here
      rfl

namespace DomainModel.AssembledFrom

open Allocation (position)

variable {model : DomainModel} {units : List CompilationUnit} {recorded : List RecordedDeclaration}
  {fragments : List CompilationUnit} {workspace : Workspace}
  (assembled : model.AssembledFrom units recorded fragments workspace) {header : Resolved.Header}
  {entry : RecordedDeclaration}

include assembled

/-- A type is written with the name of its enumeration. -/
theorem write_type {type : Syntax.PropertyType} {found : Option (Resolution EnumerationIndex)}
    (looked : found = workspace.registry.findTypeEnumeration type) {result : Model.DataType}
    (made : Assembly.dataType workspace.allocation type found = .ok result) :
    model.writeType result = type.stripped := by
  cases type with
  | primitive type =>
    cases made
    rfl
  | enumeration name =>
    rw [looked] at made
    simp only [Assembly.dataType, Registry.findTypeEnumeration, Option.getD_some, bind_eq_ok,
      pure_eq_ok, Assembly.resolved_eq_ok, Allocation.idOf_eq_ok] at made
    obtain ⟨index, located, _, ⟨has, rfl⟩, rfl⟩ := made
    have called := (assembled.names.enumerations.of_find located).2
    rw [DomainModel.writeType, assembled.made.enumeration has]
    exact congrArg (Syntax.PropertyType.enumeration ∘ Syntax.Identifier.bare) called

/-- A property is written as it is declared. -/
theorem write_property {index : PropertyIndex}
    (holds : workspace.program.properties.Holds index) :
    model.writeProperty (model.parts.property
        (position workspace.allocation.properties index)) =
      (workspace.program.properties.get index).declaration.stripped := by
  have record := assembled.made.property (assembled.covers.properties.mem_iff.mpr holds)
  have type := assembled.write_type (assembled.declarations.properties index holds)
    record.dataType
  rw [DomainModel.writeProperty, type, record.name, record.optional, record.modifiers,
    record.validations, Syntax.Property.bare, Syntax.Property.stripped, map_bare_modifiers,
    List.map_map, List.map_map]
  rfl

/-- An end signature is written as it is declared. -/
theorem write_signature {index : EndSignatureIndex}
    (holds : workspace.program.endSignatures.Holds index) :
    model.writeSignature (model.parts.endSignature
        (position workspace.allocation.endSignatures index)) =
      (workspace.program.endSignatures.get index).declaration.stripped := by
  have record := assembled.made.endSignature (assembled.covers.endSignatures.mem_iff.mpr holds)
  obtain ⟨target, found, held⟩ := assembled.sound.signatureTargets index holds
  have looked := assembled.declarations.endSignatures index holds
  rw [found, Option.some.injEq] at looked
  have called := (assembled.names.of_findClassifier looked.symm).2
  rw [DomainModel.writeSignature, record.name, record.target target found,
    assembled.made.classifierName_position assembled.covers held, called, record.multiplicity,
    record.modifiers, map_bare_modifiers]
  rfl

/-- An end of an association is written as it is declared. -/
theorem write_end {index : AssociationEndIndex}
    (holds : workspace.program.associationEnds.Holds index) :
    model.writeEnd (model.parts.associationEnd
        (position workspace.allocation.associationEnds index)) =
      (workspace.program.associationEnds.get index).declaration.stripped := by
  have record :=
    assembled.made.associationEnd (assembled.covers.associationEnds.mem_iff.mpr holds)
  obtain ⟨target, found, held⟩ := assembled.sound.endTargets index holds
  have called := (assembled.names.classes.of_find
    ((assembled.declarations.endTargets index holds).symm.trans found)).2
  have ordering := assembled.made.write_orderBy assembled.covers (fun written isWritten =>
    (assembled.sound.endOrderings index holds written isWritten).2.imp fun _ => And.right)
    record.orderBy
  rw [assembled.references.endOrderings index holds, Option.map_map] at ordering
  simp only [Function.comp_def, Program.words_resolveOrderBy] at ordering
  rw [DomainModel.writeEnd, record.name, record.target target found,
    assembled.made.className_position assembled.covers held, Resolved.Classifier.name, called,
    record.multiplicity, record.modifiers, map_bare_modifiers, ordering]
  rfl

/-- A parameter is written as it is declared. -/
theorem write_parameter {index : ParameterIndex}
    (holds : workspace.program.parameters.Holds index) :
    model.writeParameter (model.parts.parameter
        (position workspace.allocation.parameters index)) =
      (workspace.program.parameters.get index).declaration.stripped := by
  have record := assembled.made.parameter (assembled.covers.parameters.mem_iff.mpr holds)
  have type := assembled.write_type (assembled.references.parameters index holds)
    record.dataType
  rw [DomainModel.writeParameter, type, record.name, record.multiplicity]
  rfl

/-- The clauses of a service are written as they are declared, and each says whether it was
inferred. -/
theorem write_clauses {index : ServiceIndex} (holds : workspace.program.services.Holds index) :
    (model.parts.service
        (position workspace.allocation.services index)).clauses.map
        (fun clause => (model.writeClause clause, clause.inferred)) =
      (workspace.program.services.get index).clauses.map fun clause =>
        (clause.declaration.stripped, clause.inferred.isSome) := by
  have record := assembled.made.service (assembled.covers.services.mem_iff.mpr holds)
  have typed := assembled.sound.clauses index holds
  have looked := assembled.references.clauses index holds
  have clauses := mapM_eq_ok.mp record.clauses
  generalize (workspace.program.services.get index).clauses = declared at clauses typed looked ⊢
  generalize (model.parts.service _).clauses = results at clauses ⊢
  induction clauses with
  | nil => rfl
  | @cons clause _ _ _ here _ ih =>
    rw [List.forall_mem_cons] at typed looked
    rw [List.map_cons, List.map_cons, ih typed.2 looked.2]
    obtain ⟨condition, klass, found, -, typedCondition⟩ := typed.1
    simp only [Assembly.clause, bind_eq_ok, pure_eq_ok, Assembly.filled_eq_ok, found,
      Option.some.injEq] at here
    obtain ⟨_, rfl, _, assembledCondition, rfl⟩ := here
    have words := assembled.made.write_criteria assembled.covers typedCondition
      assembledCondition
    rw [Option.some.inj (found.symm.trans looked.1), Program.words_resolveCriteria] at words
    rw [DomainModel.writeClause, words]
    rfl

/-- A service has the clauses that are written and then those that were inferred. -/
theorem clauses_split {index : ServiceIndex} (holds : workspace.program.services.Holds index) :
    ∃ written inferred, (model.parts.service
        (position workspace.allocation.services index)).clauses =
          written ++ Option.toList inferred ∧
      (∀ clause ∈ written, clause.inferred = false) ∧
      written.map model.writeClause = (workspace.program.services.get
        index).declaration.clauses.map Syntax.Clause.stripped ∧
      ∀ clause ∈ inferred, clause.inferred = true ∧ ∃ versionEnd,
        Service.versionClause (workspace.program.services.get index).declaration.verb versionEnd =
          some (model.writeClause clause) := by
  obtain ⟨added, declared, isVersion⟩ := assembled.sound.coherent.clauses index holds
  have clauses := assembled.write_clauses holds
  have views : (workspace.program.services.get index).clauses.map (fun clause =>
        (clause.declaration.stripped, clause.inferred.isSome)) =
      (workspace.program.services.get index).declaration.clauses.map (fun declaration =>
        (declaration.stripped, false)) ++
      added.toList.map fun clause => (clause.declaration.stripped, true) := by
    have viewed := congrArg (List.map fun clause : Resolved.Clause =>
      (clause.declaration.stripped, clause.inferred.isSome)) declared
    rw [List.map_map, List.map_append, List.map_map] at viewed
    refine viewed.trans (congrArg _ (List.map_congr_left fun clause member => ?_))
    rw [(isVersion clause (Option.mem_toList.mp member)).1, Option.isSome_some]
  rw [views] at clauses
  obtain ⟨written, last, whole, ofWritten, ofLast⟩ := List.map_eq_append_iff.mp clauses
  have flags : written.map Model.Clause.inferred =
      (workspace.program.services.get index).declaration.clauses.map fun _ => false := by
    simpa [Function.comp_def] using congrArg (List.map Prod.snd) ofWritten
  refine ⟨written, last.head?, ?_, fun clause member => ?_, ?_, fun clause member => ?_⟩
  · rw [whole]
    cases added with
    | none =>
      rw [List.map_eq_nil_iff.mp ofLast]
      rfl
    | some clause =>
      obtain ⟨only, rfl, -⟩ := List.map_eq_singleton_iff.mp ofLast
      rfl
  · have among := List.mem_map_of_mem (f := Model.Clause.inferred) member
    rw [flags] at among
    obtain ⟨_, -, same⟩ := List.mem_map.mp among
    exact same.symm
  · simpa [Function.comp_def] using congrArg (List.map Prod.fst) ofWritten
  · have view := List.mem_map_of_mem
      (f := fun clause => (model.writeClause clause, clause.inferred))
      (List.mem_of_mem_head? member)
    rw [ofLast] at view
    obtain ⟨origin, isAdded, same⟩ := List.mem_map.mp view
    obtain ⟨words, flag⟩ := Prod.mk.inj same
    obtain ⟨-, versionEnd, made⟩ := isVersion origin (Option.mem_toList.mp isAdded)
    exact ⟨flag.symm, versionEnd, made.trans (congrArg some words)⟩

/-- A service is written as it is declared, and its inferred clause comes last. -/
theorem write_service {index : ServiceIndex} (holds : workspace.program.services.Holds index) :
    model.writeService (model.parts.service
        (position workspace.allocation.services index)) =
      (workspace.program.services.get index).declaration.stripped ∧
    model.ClausesOrdered (model.parts.service
      (position workspace.allocation.services index)) := by
  have record := assembled.made.service (assembled.covers.services.mem_iff.mpr holds)
  obtain ⟨written, inferred, split, byHand, words, added⟩ := assembled.clauses_split holds
  have kept : (model.parts.service (position workspace.allocation.services index)).clauses.filter
      (! ·.inferred) = written := by
    rw [split, List.filter_append, List.filter_eq_self.mpr (by simpa using byHand),
      List.filter_eq_nil_iff.mpr, List.append_nil]
    intro clause member
    simp [(added clause (Option.mem_toList.mp member)).1]
  have ordering := assembled.made.write_orderBy assembled.covers (fun ordering ordered =>
    (assembled.sound.serviceOrderings index holds ordering ordered).elim fun klass typed =>
      ⟨.klass klass, typed.2⟩) record.orderBy
  rw [assembled.references.serviceOrderings index holds, Option.map_map] at ordering
  simp only [Function.comp_def, Program.words_resolveOrderBy] at ordering
  have projection :
      (model.parts.service (position workspace.allocation.services index)).projection.map (fun id =>
          Syntax.Identifier.bare (model.parts.projection id).info.name) =
      (workspace.program.services.get index).declaration.projection.map
        Syntax.Identifier.stripped := by
    have made := record.projection
    rw [Assembly.serviceProjection, assembled.references.serviceProjections index holds] at made
    cases named : (workspace.program.services.get index).declaration.projection with
    | none =>
      rw [named] at made
      rw [← pure_eq_ok.mp made]
      rfl
    | some name =>
      rw [named] at made
      simp only [Option.map_some, bind_eq_ok, pure_eq_ok, Assembly.resolved_eq_ok,
        Allocation.idOf_eq_ok] at made
      obtain ⟨shown, found, _, ⟨has, rfl⟩, made⟩ := made
      have called := (assembled.names.projections.of_find found).2
      rw [← made, Option.map_some, Option.map_some, (assembled.made.projection has).info]
      exact congrArg (some ∘ Syntax.Identifier.bare) called
  refine ⟨?_, inferred, ?_, fun clause member => ?_⟩
  · rw [DomainModel.writeService, record.verb, record.multiplicity, kept, words, projection,
      ordering]
    rfl
  · rw [kept]
    exact split
  · rw [record.verb]
    exact added clause member

/-- A url is written as it is declared. -/
theorem write_url {index : UrlIndex} (holds : workspace.program.urls.Holds index) :
    model.writeUrl (model.parts.url
        (position workspace.allocation.urls index)) =
      (workspace.program.urls.get index).declaration.stripped := by
  have record := assembled.made.url (assembled.covers.urls.mem_iff.mpr holds)
  have coherent := assembled.sound.coherent
  have parameters : (workspace.program.urls.get index).parameters.map (fun parameter =>
      model.writeParameter (model.parts.parameter
        (position workspace.allocation.parameters parameter))) =
      (workspace.program.urls.get index).declaration.parameters.map Syntax.Parameter.stripped := by
    rw [← coherent.parametersWritten index holds (by simp), List.map_map]
    apply List.map_congr_left
    intro parameter member
    have listed := (coherent.parameters.mem_listed holds (by simp)).mp member
    exact assembled.write_parameter listed.1
  rw [Syntax.Url.parameters_eq] at parameters
  obtain ⟨segments, query⟩ :=
    map_spell (coherent.pathsWritten index holds (by simp)) parameters
  have services : (workspace.program.urls.get index).services.map (fun service =>
      model.writeService (model.parts.service
        (position workspace.allocation.services service))) =
      (workspace.program.urls.get index).declaration.services.map Syntax.Service.stripped := by
    rw [← coherent.servicesWritten index holds (by simp), List.map_map]
    apply List.map_congr_left
    intro service member
    have listed := (coherent.services.mem_listed holds (by simp)).mp member
    exact (assembled.write_service listed.1).1
  rw [DomainModel.writeUrl, model.write_segments record.path, segments, record.queryParameters,
    record.services, List.map_map, List.map_map]
  exact congrArg₂ (Syntax.Url.mk .bare _) query services

/-- An enumeration is written as it is declared. -/
theorem write_enumeration {declaration : Syntax.Enumeration} {index : EnumerationIndex}
    (called : header.name = declaration.name)
    (describes : workspace.program.Describes header (.enumeration declaration)
      (.enumeration index)) :
    writeEnumeration (model.parts.enumeration
        (position workspace.allocation.enumerations index)) =
      declaration.stripped := by
  cases describes with
  | enumeration holds written =>
    rw [assembled.made.enumeration (assembled.covers.enumerations.mem_iff.mpr holds), written,
      writeEnumeration, Syntax.Enumeration.stripped, Assembly.enumeration, List.map_map,
      Assembly.info, called]
    rfl

/-- An association is written as it is declared. -/
theorem write_association {declaration : Syntax.Association} {index : AssociationIndex}
    (called : header.name = declaration.name)
    (describes : workspace.program.Describes header (.association declaration)
      (.association index)) :
    model.writeAssociation (model.parts.association
        (position workspace.allocation.associations index)) =
      declaration.stripped := by
  cases describes with
  | association holds written holdsSource sourceWritten holdsTarget targetWritten =>
    have record := assembled.made.association (assembled.covers.associations.mem_iff.mpr holds)
    have ofHeader := congrArg Resolved.Association.header written
    have ofSource := congrArg Resolved.Association.source written
    have ofTarget := congrArg Resolved.Association.target written
    have ofRelationship := congrArg Resolved.Association.declaredRelationship written
    simp only [Resolved.Association.unlinked] at ofHeader ofSource ofTarget ofRelationship
    obtain ⟨condition, this, found, -, typed⟩ := assembled.sound.relationships index holds
    have words := assembled.made.write_criteria assembled.covers typed
      (record.criteria condition found)
    rw [Option.some.inj (found.symm.trans (assembled.references.relationships index holds)),
      Program.words_resolveCriteria, ofRelationship] at words
    rw [writeAssociation, record.info, record.source, record.target, ofHeader, ofSource, ofTarget,
      assembled.write_end holdsSource, assembled.write_end holdsTarget, sourceWritten,
      targetWritten, words, Assembly.info, called]
    rfl

/-- A projection is written as it is declared. -/
theorem write_projection {declaration : Syntax.Projection} {index : ProjectionIndex}
    (called : header.name = declaration.name)
    (describes : workspace.program.Describes header (.projection declaration) (.projection index)) :
    model.writeProjection (model.parts.projection
        (position workspace.allocation.projections index)) =
      declaration.stripped ∧
    model.ElementsNamed (model.parts.projection
      (position workspace.allocation.projections index)).children := by
  cases describes with
  | projection holds written =>
    have record := assembled.made.projection (assembled.covers.projections.mem_iff.mpr holds)
    have ofHeader := congrArg Resolved.Projection.header written
    have ofClassifier := congrArg Resolved.Projection.classifierName written
    have ofChildren := congrArg Resolved.Projection.declaredChildren written
    simp only [Resolved.Projection.unlinked] at ofHeader ofClassifier ofChildren
    obtain ⟨classifier, found, held, typed⟩ := assembled.sound.projections index holds
    have looked := Option.some.inj
      (found.symm.trans (assembled.references.projections index holds))
    have shown := (assembled.names.of_findClassifier looked.symm).2
    obtain ⟨words, named⟩ := Assembly.Made.write_elements assembled.made assembled.covers
      classifier _ _ typed record.children
    rw [assembled.references.children index holds, Program.allWords_resolveElements,
      ofChildren] at words
    refine ⟨?_, named⟩
    rw [writeProjection, record.info, ofHeader, record.classifier classifier found,
      assembled.made.classifierName_position assembled.covers held, shown, ofClassifier, words,
      Assembly.info, called]
    rfl

/-- A service group is written as it is declared, and inferred clauses come last. -/
theorem write_serviceGroup {declaration : Syntax.ServiceGroup} {index : ServiceGroupIndex}
    (called : header.name = declaration.name)
    (describes : workspace.program.Describes header (.serviceGroup declaration)
      (.serviceGroup index)) :
    model.writeServiceGroup (model.parts.serviceGroup
        (position workspace.allocation.serviceGroups index)) =
      declaration.stripped ∧
    ∀ url ∈ (model.parts.serviceGroup
        (position workspace.allocation.serviceGroups index)).urls,
      ∀ service ∈ (model.parts.url url).services,
        model.ClausesOrdered (model.parts.service service) := by
  cases describes with
  | serviceGroup holds written holdsUrls urlsWritten =>
    have record := assembled.made.serviceGroup (assembled.covers.serviceGroups.mem_iff.mpr holds)
    have ofHeader := congrArg Resolved.ServiceGroup.header written
    have ofClass := congrArg Resolved.ServiceGroup.className written
    have ofUrls := congrArg Resolved.ServiceGroup.urls written
    simp only [Resolved.ServiceGroup.unlinked] at ofHeader ofClass ofUrls
    obtain ⟨klass, found, held⟩ := assembled.sound.groups index holds
    have looked := Option.some.inj (found.symm.trans (assembled.references.groups index holds))
    have shown := (assembled.names.classes.of_find looked.symm).2
    refine ⟨?_, fun url isUrl service isService => ?_⟩
    · have urls : (workspace.program.serviceGroups.get index).urls.map (fun url =>
          model.writeUrl (model.parts.url
            (position workspace.allocation.urls url))) =
          declaration.urls.map Syntax.Url.stripped := by
        rw [ofUrls, ← urlsWritten, List.map_map]
        exact List.map_congr_left fun url member => assembled.write_url (holdsUrls url member)
      rw [writeServiceGroup, record.info, ofHeader, record.klass klass found,
        assembled.made.className_position assembled.covers held, Resolved.Classifier.name, shown,
        ofClass, record.urls, List.map_map, Assembly.info, called]
      exact congrArg (Syntax.ServiceGroup.mk .bare _ _) urls
    · rw [record.urls, ofUrls] at isUrl
      obtain ⟨urlIndex, among, rfl⟩ := List.mem_map.mp isUrl
      have urlHolds := holdsUrls urlIndex among
      have urlRecord := assembled.made.url (assembled.covers.urls.mem_iff.mpr urlHolds)
      rw [urlRecord.services] at isService
      obtain ⟨serviceIndex, listed, rfl⟩ := List.mem_map.mp isService
      have serviceHolds := ((assembled.sound.coherent.services.mem_listed urlHolds
        (by simp)).mp listed).1
      exact (assembled.write_service serviceHolds).2

/-- The interfaces of a classifier are written with the names they were found by. -/
theorem write_interfaces {classifier : ClassifierIndex}
    (holds : workspace.program.HoldsClassifier classifier) :
    (model.interfaces (workspace.allocation.classifierPosition
        classifier)).map (fun id => Syntax.Identifier.bare (model.parts.interface id).info.name) =
      (workspace.program.classifier classifier).declaredInterfaces.map
        Syntax.Identifier.stripped := by
  have has := assembled.covers.hasClassifier.mpr holds
  rw [assembled.made.interfaces_eq has (assembled.sound.lookedUp classifier holds), List.map_map]
  have looked := assembled.declarations.interfaces_eq holds
  have found := assembled.sound.interfaces classifier holds
  rw [Resolved.Classifier.resolvedInterfaces, looked, Registry.findInterfaces]
  rw [looked, Registry.findInterfaces] at found
  generalize (workspace.program.classifier classifier).declaredInterfaces = names at found ⊢
  induction names with
  | nil => rfl
  | cons name rest ih =>
    rw [List.map_cons, List.forall_mem_cons] at found
    obtain ⟨index, located, held⟩ := found.1
    have called := (assembled.names.interfaces.of_find located).2
    have here := assembled.made.classifierName_position assembled.covers
      (show workspace.program.HoldsClassifier (.interface index) from held)
    rw [List.map_cons, List.filterMap_cons_some (congrArg Resolution.value? located),
      List.map_cons, List.map_cons, ih found.2]
    exact congrArg (· :: _) (congrArg Syntax.Identifier.bare (here.trans called))

/-- An interface is written as it is declared, apart from its members. -/
theorem write_interface {declaration : Syntax.Interface} {index : InterfaceIndex}
    (called : header.name = declaration.name)
    (describes : workspace.program.Describes header (.interface declaration) (.interface index)) :
    model.writeInterface (model.parts.interface
        (position workspace.allocation.interfaces index)) =
      { declaration.stripped with members := [] } := by
  cases describes with
  | interface holds written =>
    have held : workspace.program.HoldsClassifier (.interface index) := holds
    have record := assembled.made.classifier (assembled.covers.hasClassifier.mpr held)
    have ofHeader := congrArg Resolved.Classifier.header written
    have ofModifiers := congrArg Resolved.Classifier.modifiers written
    have ofInterfaces := congrArg Resolved.Classifier.declaredInterfaces written
    have interfaces := assembled.write_interfaces held
    have info : (model.parts.interface (position workspace.allocation.interfaces index)).info =
        Assembly.info header :=
      record.info.trans (congrArg Assembly.info ofHeader)
    have modifiers :
        (model.parts.interface (position workspace.allocation.interfaces index)).modifiers =
          Assembly.modifiers declaration.modifiers :=
      record.modifiers.trans (congrArg Assembly.modifiers ofModifiers)
    rw [writeInterface, info, modifiers, map_bare_modifiers, Assembly.info, called]
    exact congrArg (fun names => Syntax.Interface.mk .bare _ names _ [])
      (interfaces.trans (congrArg (List.map Syntax.Identifier.stripped) ofInterfaces))

/-- A class is written as it is declared, apart from its members. -/
theorem write_class {declaration : Syntax.Class} {index : ClassIndex}
    (called : header.name = declaration.name)
    (describes : workspace.program.Describes header (.klass declaration) (.klass index)) :
    model.writeClass (model.parts.klass
        (position workspace.allocation.classes index)) =
      { declaration.stripped with members := [] } := by
  cases describes with
  | klass holds written =>
    have held : workspace.program.HoldsClassifier (.klass index) := holds
    have common := assembled.made.classifier (assembled.covers.hasClassifier.mpr held)
    have record := assembled.made.klass (assembled.covers.classes.mem_iff.mpr holds)
    have ofHeader := congrArg (fun klass : Resolved.Class => klass.header) written
    have ofModifiers := congrArg (fun klass : Resolved.Class => klass.modifiers) written
    have ofInterfaces := congrArg (fun klass : Resolved.Class => klass.declaredInterfaces) written
    have ofUser := congrArg Resolved.Class.isUser written
    have ofAbstraction := congrArg Resolved.Class.abstraction written
    have ofSuperclass := congrArg Resolved.Class.declaredSuperclass written
    simp only [Resolved.Class.written, Resolved.Class.unlinked] at ofUser ofAbstraction ofSuperclass
    have interfaces := assembled.write_interfaces held
    have info : (model.parts.klass (position workspace.allocation.classes index)).info =
        Assembly.info header :=
      common.info.trans (congrArg Assembly.info ofHeader)
    have modifiers : (model.parts.klass (position workspace.allocation.classes index)).modifiers =
          Assembly.modifiers declaration.modifiers :=
      common.modifiers.trans (congrArg Assembly.modifiers ofModifiers)
    have superclass :
        (model.parts.klass (position workspace.allocation.classes index)).superclass.map (fun id =>
            Syntax.Identifier.bare (model.parts.klass id).info.name) =
        declaration.superclass.map Syntax.Identifier.stripped := by
      have found := assembled.sound.superclasses index holds
      rw [record.superclass, Option.map_map, Program.superclass?, Resolved.Class.superclass?]
      rw [assembled.declarations.superclasses index holds, ofSuperclass] at found ⊢
      cases named : declaration.superclass with
      | none => rfl
      | some name =>
        rw [named] at found
        obtain ⟨parent, located, heldParent⟩ := found _ rfl
        dsimp only at located
        have parentName := (assembled.names.classes.of_find located).2
        rw [Option.map_some, Option.bind_some, located]
        exact congrArg (some ∘ Syntax.Identifier.bare)
          ((assembled.made.className_position assembled.covers heldParent).trans parentName)
    have abstraction : (if (workspace.program.classes.get index).isAbstract then
          some (⟨.placeholder, (workspace.program.classes.get index).abstraction.bind
            (·.inheritance)⟩ : Syntax.AbstractClause)
        else none) = declaration.abstraction.map ({ · with span := .placeholder }) := by
      rw [Resolved.Class.isAbstract, ofAbstraction]
      cases declaration.abstraction <;> rfl
    rw [writeClass, info, modifiers, map_bare_modifiers, superclass, record.isUser, ofUser,
      record.isAbstract, record.inheritance, abstraction, Assembly.info, called]
    exact congrArg (fun names => Syntax.Class.mk .bare _ _ _ _ names _ [])
      (interfaces.trans (congrArg (List.map Syntax.Identifier.stripped) ofInterfaces))

/-- A classifier has the members of its declaration and the properties of fragments. -/
theorem membersRestated (member : entry ∈ recorded) {owner : ClassifierIndex}
    (isClassifier : entry.2.classifier? = some owner) {members : List Syntax.Member}
    (written : entry.1.2.members? = some members) :
    model.MembersRestated (workspace.allocation.classifierPosition owner)
      (members.map Syntax.Member.stripped)
      ((fragments.flatMap (·.membersFor
        (entry.1.1.context entry.1.2.node.id))).map Syntax.Member.stripped) := by
  obtain ⟨ordinal, describes⟩ := assembled.records.describes_mem member
  have context : (workspace.program.classifier owner).header.context =
      entry.1.1.context entry.1.2.node.id := by
    rw [← Program.header_of_classifier? isClassifier, describes.header_eq]
    rfl
  have holds := Program.holdsClassifier_of_classifier? isClassifier describes.holds
  have record := assembled.made.classifier (assembled.covers.hasClassifier.mpr holds)
  constructor
  · have properties := congrArg (List.map fun property : Resolved.Property =>
      property.declaration.stripped) (assembled.toLinked.map_properties member isClassifier)
    rw [List.map_map, List.map_map, List.map_append] at properties
    rw [record.declaredProperties, List.map_map]
    calc _ = (workspace.program.classifier owner).properties.map (fun property =>
            (workspace.program.properties.get property).declaration.stripped) :=
          List.map_congr_left fun property isMember => assembled.write_property
            ((assembled.sound.coherent.properties.mem_listed holds id).mp isMember).1
      _ = _ := properties
      _ = _ := by
        congr 1
        · rw [writtenProperties, isClassifier, written]
          dsimp only
          rw [← map_stripped_property?, ← map_declaration_properties entry.1.1 owner none,
            List.map_map]
          rfl
        · rw [← map_stripped_property?, List.filter_flatMap, List.map_flatMap,
            List.filterMap_flatMap, List.map_flatMap]
          apply List.flatMap_congr
          intro fragment isFragment
          rw [← context, ← assembled.toLinked.map_fragmentProperties holds
            (assembled.expands fragment isFragment), List.map_map]
          rfl
  · have signatures := congrArg (List.map fun signature : Resolved.EndSignature =>
      signature.declaration.stripped) (assembled.toLinked.map_endSignatures member isClassifier)
    rw [List.map_map, List.map_map] at signatures
    rw [record.endSignatures, List.map_map]
    calc _ = (workspace.program.classifier owner).endSignatures.map (fun signature =>
            (workspace.program.endSignatures.get signature).declaration.stripped) :=
          List.map_congr_left fun signature isMember => assembled.write_signature
            ((assembled.sound.coherent.endSignatures.mem_listed holds id).mp isMember).1
      _ = _ := signatures
      _ = _ := by
        rw [writtenSignatures, isClassifier, written]
        dsimp only
        rw [← map_stripped_endSignature?, ← map_declaration_endSignatures entry.1.1 owner,
          List.map_map]
        rfl

/-- The element of a declaration is found under its name. -/
theorem resolve_of_mem (member : entry ∈ recorded) :
    model.resolve entry.1.2.name.name = some (elementOf workspace entry.2) := by
  obtain ⟨ordinal, describes⟩ := assembled.records.describes_mem member
  rw [assembled.resolve_eq_some_iff]
  refine ⟨entry.2, List.mem_map_of_mem member, ?_, rfl⟩
  rw [Program.nameOf, describes.header_eq]
  rfl

/-- Every declaration is restated, with the members that fragments add to it. -/
theorem restates (member : entry ∈ recorded) :
    model.Restates ((fragments.flatMap (·.membersFor
      (entry.1.1.context entry.1.2.node.id))).map Syntax.Member.stripped) entry.1.2.stripped := by
  obtain ⟨ordinal, describes⟩ := assembled.records.describes_mem member
  have found := assembled.resolve_of_mem member
  obtain ⟨⟨unit, element⟩, index⟩ := entry
  have restated := describes
  cases restated with
  | enumeration holds _ =>
    exact ⟨_, congrArg (Option.bind · _) found, assembled.write_enumeration rfl describes⟩
  | interface holds _ =>
    exact ⟨_, congrArg (Option.bind · _) found, assembled.write_interface rfl describes,
      assembled.membersRestated member rfl rfl⟩
  | klass holds _ =>
    exact ⟨_, congrArg (Option.bind · _) found, assembled.write_class rfl describes,
      assembled.membersRestated member rfl rfl⟩
  | association holds _ _ _ _ _ =>
    exact ⟨_, congrArg (Option.bind · _) found, assembled.write_association rfl describes⟩
  | projection holds _ =>
    exact ⟨_, congrArg (Option.bind · _) found, assembled.write_projection rfl describes⟩
  | serviceGroup holds _ _ _ =>
    exact ⟨_, congrArg (Option.bind · _) found, assembled.write_serviceGroup rfl describes⟩

end DomainModel.AssembledFrom

/-- The members that fragments add to a declaration are among all units those of the fragments
with properties. -/
theorem Workspace.Linked.membersFor_units {trees : List (String × Syntax.SourceTree)}
    {recorded : List RecordedDeclaration} {fragments : List CompilationUnit}
    {workspace : Workspace}
    (linked : workspace.Linked (SourceSet.ofTrees trees).units recorded fragments)
    (anchor : ContextKey) :
    workspace.units.flatMap (·.membersFor anchor) = fragments.flatMap (·.membersFor anchor) := by
  obtain ⟨more, whole, clauses⟩ := linked.units_eq
  have ofFiles : (SourceSet.ofTrees trees).units.flatMap (·.membersFor anchor) = [] := by
    rw [List.flatMap_eq_nil_iff]
    intro unit member
    rw [SourceSet.units_ofTrees, List.mem_mapIdx] at member
    obtain ⟨position, _, rfl⟩ := member
    rfl
  have ofClauses : more.flatMap (·.membersFor anchor) = [] := by
    rw [List.flatMap_eq_nil_iff]
    intro fragment member
    obtain ⟨service, clause, body, -, expansion, -⟩ := clauses fragment member
    rw [CompilationUnit.membersFor, body, expansion]
  rw [whole, List.flatMap_append, List.flatMap_append, ofFiles, ofClauses, List.nil_append,
    List.append_nil]

/-- Compiling loses nothing: every declaration of every file is found in the model under its
name, and putting names in the place of ids gives back what is written in it, before what was
inferred for it. -/
theorem compile_restates {trees : List (String × Syntax.SourceTree)}
    {configuration : Configuration} {compilation : Compilation} {model : DomainModel}
    (compiled : compile trees configuration = .ok compilation)
    (found : compilation.model = some model) :
    ∀ entry ∈ trees, ∀ element ∈ entry.2.elements,
      ∃ written ∈ declarationsOf compilation.units,
        written.1.sourceName = entry.1 ∧ written.2.stripped = element.stripped ∧
        model.Restates ((compilation.units.flatMap (·.membersFor
          (written.1.context written.2.node.id))).map Syntax.Member.stripped)
          element.stripped := by
  intro entry isEntry element isElement
  obtain ⟨workspace, recorded, fragments, assembled, units, -⟩ :=
    exists_assembledFrom_of_compile compiled found
  have among : (entry.1, element.stripped) ∈
      (declarationsOf (SourceSet.ofTrees trees).units).map fun written =>
        (written.1.sourceName, written.2.stripped) := by
    rw [SourceSet.stripped_declarationsOf]
    exact List.mem_flatMap.mpr ⟨entry, isEntry, List.mem_map.mpr ⟨element, isElement, rfl⟩⟩
  obtain ⟨written, isWritten, same⟩ := List.mem_map.mp among
  obtain ⟨source, words⟩ := Prod.mk.inj same
  rw [units]
  refine ⟨written, ?_, source, words, ?_⟩
  · obtain ⟨more, whole, -⟩ := assembled.units_eq
    rw [whole, List.append_assoc, declarationsOf, List.flatMap_append]
    exact List.mem_append_left _ isWritten
  · rw [← assembled.written] at isWritten
    obtain ⟨declared, isDeclared, rfl⟩ := List.mem_map.mp isWritten
    rw [assembled.toLinked.membersFor_units, ← words]
    exact assembled.restates isDeclared

/-- The documents are restated, with a service that has an inferred clause after the written
one. -/
theorem compile_restates_documents : ∃ compilation model,
    compile Sample.trees {} = .ok compilation ∧ compilation.model = some model ∧
      model.parts.services.map (·.clauses.length) = [2] ∧
      ∀ entry ∈ Sample.trees, ∀ element ∈ entry.2.elements,
        ∃ written ∈ declarationsOf compilation.units,
          written.1.sourceName = entry.1 ∧ written.2.stripped = element.stripped ∧
          model.Restates ((compilation.units.flatMap (·.membersFor
            (written.1.context written.2.node.id))).map Syntax.Member.stripped)
            element.stripped := by
  obtain ⟨compilation, model, compiled, found, -, -, clauses, -⟩ := Sample.compiles
  exact ⟨compilation, model, compiled, found, clauses, compile_restates compiled found⟩

end DomainLang
