import DomainLang.Proofs.Compilation
import DomainLang.Proofs.Model.StoredIds

/-!
# Models are intact

The ids in a model that was compiled fit together: every id is the position of a record, the
two ends of an association name it and each other, and a record that has an owner is listed
once by its owner and by no other. What is said here about ids rests on what
`Program.Coherent` says about indices and on the allocation, which is a bijection.
-/

namespace DomainLang

namespace Model.Parts

/-- Whether a record has the id. -/
def Has (parts : Parts) {kind : RecordKind} (id : Id kind) : Prop :=
  id.value < parts.size kind

/-- Whether an interface or class has the id. -/
def HasClassifier (parts : Parts) : ClassifierId → Prop
  | .interface id => parts.Has id
  | .klass id => parts.Has id

end Model.Parts

namespace DomainModel

open Model

/-- A list has a member once if the holder of the list owns the member, and else not at all. -/
def ListedOnce {Owner Member : Type} [DecidableEq Owner] [DecidableEq Member]
    (owner holder : Owner) (listed : List Member) (member : Member) : Prop :=
  listed.count member = if owner = holder then 1 else 0

/-- The ids of a model fit together. -/
structure Intact (model : DomainModel) : Prop where
  storedIds : ∀ stored ∈ model.parts.storedIds, model.parts.Has stored.id
  opposite_opposite : ∀ associationEnd : AssociationEndId, model.parts.Has associationEnd →
    model.opposite (model.opposite associationEnd) = associationEnd
  opposite_ne : ∀ associationEnd : AssociationEndId, model.parts.Has associationEnd →
    model.opposite associationEnd ≠ associationEnd
  /-- The source and the target name the association, and no other end does. -/
  association_eq_iff : ∀ association : AssociationId, model.parts.Has association →
    ∀ associationEnd : AssociationEndId, model.parts.Has associationEnd →
      ((model.parts.associationEnd associationEnd).association = association ↔
        associationEnd = (model.parts.association association).source ∨
          associationEnd = (model.parts.association association).target)
  opposite_source : ∀ association : AssociationId, model.parts.Has association →
    model.opposite (model.parts.association association).source =
      (model.parts.association association).target
  owner_eq : ∀ associationEnd : AssociationEndId, model.parts.Has associationEnd →
    (model.parts.associationEnd associationEnd).owner =
      (model.parts.associationEnd (model.opposite associationEnd)).target
  associationEnds : ∀ associationEnd : AssociationEndId, model.parts.Has associationEnd →
    ∀ klass : ClassId, model.parts.Has klass →
      ListedOnce (model.parts.associationEnd associationEnd).owner klass
        (model.parts.klass klass).associationEnds associationEnd
  declaredProperties : ∀ property : PropertyId, model.parts.Has property →
    ∀ classifier, model.parts.HasClassifier classifier →
      ListedOnce (model.parts.property property).owner classifier
        (model.declaredProperties classifier) property
  endSignatures : ∀ signature : EndSignatureId, model.parts.Has signature →
    ∀ classifier, model.parts.HasClassifier classifier →
      ListedOnce (model.parts.endSignature signature).owner classifier
        (model.endSignatures classifier) signature
  urls : ∀ url : UrlId, model.parts.Has url →
    ∀ group : ServiceGroupId, model.parts.Has group →
      ListedOnce (model.parts.url url).group group (model.parts.serviceGroup group).urls url
  parameters : ∀ parameter : ParameterId, model.parts.Has parameter →
    ∀ url : UrlId, model.parts.Has url →
      ListedOnce (model.parts.parameter parameter).url url (model.parts.url url).parameters
        parameter
  services : ∀ service : ServiceId, model.parts.Has service →
    ∀ url : UrlId, model.parts.Has url →
      ListedOnce (model.parts.service service).url url (model.parts.url url).services service

end DomainModel

namespace Allocation

/-- A list that selects the records of an owner has each of their ids once. -/
theorem listedOnce_select {kind : RecordKind} {α Owner : Type} [Inhabited α] [DecidableEq Owner]
    {arena : Arena kind α} {order : List (Index kind)} (enumerates : arena.Enumerates order)
    {test : α → Bool} {index : Index kind} (member : index ∈ order) {owner holder : Owner}
    (owns : owner = holder ↔ test (arena.get index)) :
    DomainModel.ListedOnce owner holder ((arena.select test).map (position order))
      (position order index) := by
  have known : ∀ other ∈ arena.select test, other ∈ order := fun other selected =>
    enumerates.mem_iff.mpr (Arena.mem_select.mp selected).1
  have distinct : ((arena.select test).map (position order)).Nodup :=
    (arena.nodup_select test).map_on fun first inFirst _ _ same =>
      (position_inj (known first inFirst)).mp same
  have listed : position order index ∈ (arena.select test).map (position order) ↔
      owner = holder := by
    rw [List.mem_map, owns]
    constructor
    · rintro ⟨other, selected, same⟩
      rw [← (position_inj (known other selected)).mp same]
      exact (Arena.mem_select.mp selected).2
    · intro passes
      exact ⟨index, Arena.mem_select.mpr ⟨enumerates.mem_iff.mp member, passes⟩, rfl⟩
  rw [DomainModel.ListedOnce, distinct.count]
  simp only [listed]

/-- An owner lists each of its records once, when owners and records are told apart by ids. -/
theorem listedOnce_of_owned {kind : RecordKind} {α Owner OwnerId : Type} [Inhabited α]
    [DecidableEq Owner] [DecidableEq OwnerId] {held exempt : Owner → Prop} {arena : Arena kind α}
    {owner : α → Owner} {listed : Owner → List (Index kind)} {order : List (Index kind)}
    (owned : Owned held exempt arena owner listed) (enumerates : arena.Enumerates order)
    {ownerId : Owner → OwnerId} {holder : Owner}
    (apart : ∀ {other}, held other → (ownerId other = ownerId holder ↔ other = holder))
    (holds : held holder) (settled : ¬ exempt holder) {index : Index kind}
    (member : index ∈ order) :
    DomainModel.ListedOnce (ownerId (owner (arena.get index))) (ownerId holder)
      ((listed holder).map (position order)) (position order index) := by
  rw [owned.listed_eq holder holds settled]
  apply listedOnce_select enumerates member
  rw [apart (owned.held_owner index (enumerates.mem_iff.mp member)), decide_eq_true_iff]

end Allocation

namespace Assembly

open Allocation (position exists_position position_inj classifierPosition_inj listedOnce_select
  listedOnce_of_owned)

/-- The parameters of a url are those of the record it was made of. -/
theorem UrlMade.parameters {program : Program} {allocation : Allocation} {index : UrlIndex}
    {record : Model.Url} (made : UrlMade program allocation index record) :
    record.parameters =
      (program.urls.get index).parameters.map (position allocation.parameters) := by
  have path := mapM_eq_ok.mp made.path
  rw [Model.Url.parameters, Resolved.Url.parameters, made.queryParameters, List.map_append]
  congr 1
  generalize (program.urls.get index).path = segments, record.path = results at path ⊢
  induction path with
  | nil => rfl
  | @cons written segment _ _ here _ ih =>
    cases written with
    | constant text =>
      cases here
      exact ih
    | parameter parameter =>
      simp only [urlSegment, bind_eq_ok, pure_eq_ok, Allocation.idOf_eq_ok] at here
      obtain ⟨_, ⟨-, rfl⟩, rfl⟩ := here
      exact congrArg (position allocation.parameters parameter :: ·) ih

namespace Made

variable {program : Program} {allocation : Allocation} {model : DomainModel}
  (made : Made program allocation model.parts) (covers : allocation.Covers program)
include made covers

/-- The classifiers of a model are those of the program. -/
theorem exists_classifier {id : Model.ClassifierId} (has : model.parts.HasClassifier id) :
    ∃ classifier, allocation.HasClassifier classifier ∧
      allocation.classifierPosition classifier = id := by
  cases id with
  | interface id =>
    obtain ⟨index, member, rfl⟩ := exists_position covers.interfaces.nodup
      (lt_of_lt_of_eq has (made.size_eq .interface))
    exact ⟨.interface index, member, rfl⟩
  | klass id =>
    obtain ⟨index, member, rfl⟩ := exists_position covers.classes.nodup
      (lt_of_lt_of_eq has (made.size_eq .klass))
    exact ⟨.klass index, member, rfl⟩

theorem exists_associationEnd {id : Model.AssociationEndId} (has : model.parts.Has id) :
    ∃ index ∈ allocation.associationEnds, position allocation.associationEnds index = id :=
  exists_position covers.associationEnds.nodup (lt_of_lt_of_eq has (made.size_eq .associationEnd))

theorem exists_association {id : Model.AssociationId} (has : model.parts.Has id) :
    ∃ index ∈ allocation.associations, position allocation.associations index = id :=
  exists_position covers.associations.nodup (lt_of_lt_of_eq has (made.size_eq .association))

theorem exists_url {id : Model.UrlId} (has : model.parts.Has id) :
    ∃ index ∈ allocation.urls, position allocation.urls index = id :=
  exists_position covers.urls.nodup (lt_of_lt_of_eq has (made.size_eq .url))

omit covers in
/-- The opposite of an end is the id of its opposite. -/
theorem opposite_position {index : AssociationEndIndex} (has : index ∈ allocation.associationEnds) :
    model.opposite (position allocation.associationEnds index) =
      position allocation.associationEnds (program.associationEnds.get index).opposite :=
  (made.associationEnd has).opposite

variable (sound : program.Sound)
include sound

section Ends

variable {associationEnd : Model.AssociationEndId} (hasEnd : model.parts.Has associationEnd)
  {association : Model.AssociationId} (hasAssociation : model.parts.Has association)

include hasEnd

theorem opposite_opposite : model.opposite (model.opposite associationEnd) = associationEnd := by
  obtain ⟨index, member, rfl⟩ := made.exists_associationEnd covers hasEnd
  have holds := covers.associationEnds.mem_iff.mp member
  have opposite := covers.associationEnds.mem_iff.mpr (sound.coherent.ends.holds_opposite holds)
  rw [made.opposite_position member, made.opposite_position opposite,
    sound.coherent.ends.opposite_opposite holds]

theorem opposite_ne : model.opposite associationEnd ≠ associationEnd := by
  obtain ⟨index, member, rfl⟩ := made.exists_associationEnd covers hasEnd
  rw [made.opposite_position member, ne_comm, Ne, position_inj member, eq_comm]
  exact sound.coherent.ends.opposite_ne (covers.associationEnds.mem_iff.mp member)

/-- An end belongs to the class that the opposite end leads to. -/
theorem end_owner_eq : (model.parts.associationEnd associationEnd).owner =
    (model.parts.associationEnd (model.opposite associationEnd)).target := by
  obtain ⟨index, member, rfl⟩ := made.exists_associationEnd covers hasEnd
  have holds := covers.associationEnds.mem_iff.mp member
  have opposite := covers.associationEnds.mem_iff.mpr (sound.coherent.ends.holds_opposite holds)
  obtain ⟨owner, owned, target, -⟩ := sound.endOwners index holds
  rw [made.opposite_position member, (made.associationEnd member).owner owner owned,
    (made.associationEnd opposite).target owner target]

/-- A class lists the ends that it owns. -/
theorem associationEnd_listedOnce {klass : Model.ClassId} (hasClass : model.parts.Has klass) :
    DomainModel.ListedOnce (model.parts.associationEnd associationEnd).owner klass
      (model.parts.klass klass).associationEnds associationEnd := by
  obtain ⟨index, member, rfl⟩ := made.exists_associationEnd covers hasEnd
  obtain ⟨klass, known, rfl⟩ := exists_position covers.classes.nodup
    (lt_of_lt_of_eq hasClass (made.size_eq .klass))
  obtain ⟨owner, owned, -, held⟩ := sound.endOwners index (covers.associationEnds.mem_iff.mp member)
  rw [(made.associationEnd member).owner owner owned, (made.klass known).associationEnds,
    sound.endsListed klass (covers.classes.mem_iff.mp known)]
  apply listedOnce_select covers.associationEnds member
  rw [position_inj (covers.classes.mem_iff.mpr held), owned, decide_eq_true_iff,
    Option.some.injEq]

include hasAssociation

/-- The ends that name an association are its source and its target. -/
theorem association_eq_iff :
    (model.parts.associationEnd associationEnd).association = association ↔
      associationEnd = (model.parts.association association).source ∨
        associationEnd = (model.parts.association association).target := by
  obtain ⟨index, known, rfl⟩ := made.exists_association covers hasAssociation
  obtain ⟨associationEnd, member, rfl⟩ := made.exists_associationEnd covers hasEnd
  have holds := covers.associationEnds.mem_iff.mp member
  have held := covers.associations.mem_iff.mp known
  have heldOwn := covers.associations.mem_iff.mpr (sound.coherent.ends.holds_association holds)
  rw [(made.associationEnd member).association, (made.association known).source,
    (made.association known).target, position_inj heldOwn, position_inj member,
    position_inj member, sound.coherent.ends.association_eq_iff held holds]

omit hasEnd

theorem opposite_source : model.opposite (model.parts.association association).source =
    (model.parts.association association).target := by
  obtain ⟨index, known, rfl⟩ := made.exists_association covers hasAssociation
  have held := covers.associations.mem_iff.mp known
  have source := covers.associationEnds.mem_iff.mpr (sound.coherent.ends.holds_source held)
  rw [(made.association known).source, (made.association known).target,
    made.opposite_position source, sound.coherent.ends.opposite_source held]

end Ends

section Members

variable {classifier : Model.ClassifierId} (hasClassifier : model.parts.HasClassifier classifier)
include hasClassifier

/-- A classifier lists the properties that it declares. -/
theorem property_listedOnce {property : Model.PropertyId} (hasProperty : model.parts.Has property) :
    DomainModel.ListedOnce (model.parts.property property).owner classifier
      (model.declaredProperties classifier) property := by
  obtain ⟨index, member, rfl⟩ := exists_position covers.properties.nodup
    (lt_of_lt_of_eq hasProperty (made.size_eq .property))
  obtain ⟨classifier, known, rfl⟩ := made.exists_classifier covers hasClassifier
  rw [(made.property member).owner, (made.classifier known).declaredProperties]
  exact listedOnce_of_owned sound.coherent.properties covers.properties
    (fun held => classifierPosition_inj (covers.hasClassifier.mpr held))
    (covers.hasClassifier.mp known) not_false member

/-- A classifier lists the end signatures that it declares. -/
theorem endSignature_listedOnce {signature : Model.EndSignatureId}
    (hasSignature : model.parts.Has signature) :
    DomainModel.ListedOnce (model.parts.endSignature signature).owner classifier
      (model.endSignatures classifier) signature := by
  obtain ⟨index, member, rfl⟩ := exists_position covers.endSignatures.nodup
    (lt_of_lt_of_eq hasSignature (made.size_eq .endSignature))
  obtain ⟨classifier, known, rfl⟩ := made.exists_classifier covers hasClassifier
  rw [(made.endSignature member).owner, (made.classifier known).endSignatures]
  exact listedOnce_of_owned sound.coherent.endSignatures covers.endSignatures
    (fun held => classifierPosition_inj (covers.hasClassifier.mpr held))
    (covers.hasClassifier.mp known) not_false member

end Members

section Requests

variable {url : Model.UrlId} (hasUrl : model.parts.Has url)
include hasUrl

/-- A service group lists its urls. -/
theorem url_listedOnce {group : Model.ServiceGroupId} (hasGroup : model.parts.Has group) :
    DomainModel.ListedOnce (model.parts.url url).group group (model.parts.serviceGroup group).urls
      url := by
  obtain ⟨index, member, rfl⟩ := made.exists_url covers hasUrl
  obtain ⟨group, known, rfl⟩ := exists_position covers.serviceGroups.nodup
    (lt_of_lt_of_eq hasGroup (made.size_eq .serviceGroup))
  rw [(made.url member).group, (made.serviceGroup known).urls]
  exact listedOnce_of_owned sound.coherent.urls covers.urls
    (fun held => position_inj (covers.serviceGroups.mem_iff.mpr held))
    (covers.serviceGroups.mem_iff.mp known) nofun member

/-- A url lists its parameters, those of the path before those of the query. -/
theorem parameter_listedOnce {parameter : Model.ParameterId}
    (hasParameter : model.parts.Has parameter) :
    DomainModel.ListedOnce (model.parts.parameter parameter).url url
      (model.parts.url url).parameters parameter := by
  obtain ⟨index, member, rfl⟩ := exists_position covers.parameters.nodup
    (lt_of_lt_of_eq hasParameter (made.size_eq .parameter))
  obtain ⟨url, known, rfl⟩ := made.exists_url covers hasUrl
  rw [(made.parameter member).url, (made.url known).parameters]
  exact listedOnce_of_owned sound.coherent.parameters covers.parameters
    (fun held => position_inj (covers.urls.mem_iff.mpr held)) (covers.urls.mem_iff.mp known)
    nofun member

/-- A url lists its services. -/
theorem service_listedOnce {service : Model.ServiceId} (hasService : model.parts.Has service) :
    DomainModel.ListedOnce (model.parts.service service).url url (model.parts.url url).services
      service := by
  obtain ⟨index, member, rfl⟩ := exists_position covers.services.nodup
    (lt_of_lt_of_eq hasService (made.size_eq .service))
  obtain ⟨url, known, rfl⟩ := made.exists_url covers hasUrl
  rw [(made.service member).url, (made.url known).services]
  exact listedOnce_of_owned sound.coherent.services covers.services
    (fun held => position_inj (covers.urls.mem_iff.mpr held)) (covers.urls.mem_iff.mp known)
    nofun member

end Requests

/-- A model that was made of a sound program is intact. -/
theorem intact : model.Intact where
  storedIds := made.storedIds_valid
  opposite_opposite _ hasEnd := made.opposite_opposite covers sound hasEnd
  opposite_ne _ hasEnd := made.opposite_ne covers sound hasEnd
  association_eq_iff _ hasAssociation _ hasEnd :=
    made.association_eq_iff covers sound hasEnd hasAssociation
  opposite_source _ hasAssociation := made.opposite_source covers sound hasAssociation
  owner_eq _ hasEnd := made.end_owner_eq covers sound hasEnd
  associationEnds _ hasEnd _ hasClass := made.associationEnd_listedOnce covers sound hasEnd hasClass
  declaredProperties _ hasProperty _ hasClassifier :=
    made.property_listedOnce covers sound hasClassifier hasProperty
  endSignatures _ hasSignature _ hasClassifier :=
    made.endSignature_listedOnce covers sound hasClassifier hasSignature
  urls _ hasUrl _ hasGroup := made.url_listedOnce covers sound hasUrl hasGroup
  parameters _ hasParameter _ hasUrl := made.parameter_listedOnce covers sound hasUrl hasParameter
  services _ hasService _ hasUrl := made.service_listedOnce covers sound hasUrl hasService

end Made

end Assembly

/-- Every model that is compiled is intact. -/
theorem compile_intact {trees : List (String × Syntax.SourceTree)} {configuration : Configuration}
    {compilation : Compilation} {model : DomainModel}
    (compiled : compile trees configuration = .ok compilation)
    (found : compilation.model = some model) : model.Intact := by
  obtain ⟨workspace, recorded, fragments, assembled, -⟩ :=
    exists_assembledFrom_of_compile compiled found
  exact assembled.made.intact assembled.covers assembled.sound

/-- The model of the documents is intact; its association joins a class with itself. -/
theorem compile_intact_documents : ∃ compilation model,
    compile Sample.trees {} = .ok compilation ∧ compilation.model = some model ∧
      model.parts.associationEnds.length = 2 ∧ model.Intact := by
  obtain ⟨compilation, model, compiled, found, ends, -⟩ := Sample.compiles
  exact ⟨compilation, model, compiled, found, ends, compile_intact compiled found⟩

end DomainLang
