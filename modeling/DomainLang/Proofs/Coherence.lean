import DomainLang.Proofs.Growth
import DomainLang.Proofs.Ownership
import DomainLang.Proofs.Syntax.Stripped
import DomainLang.Service.Inference

/-!
# Coherent programs

A program is coherent when every list that a record keeps is the selection of the records
that name it as their owner: the properties and end signatures of a classifier, the urls of
a service group, the parameters and services of a url. The two ends of the association at
position `n` stand at the positions `2 * n` and `2 * n + 1`, and services and clauses
follow the declarations they stand for.

While a service group or a url is being declared, its own list is not filled in yet;
`Program.Coherent` takes what is open as arguments. There is one lemma for every way in
which declaring something changes a program.
-/

namespace DomainLang

/-- The text of a segment that is a constant. -/
def Syntax.UrlSegment.constant? : Syntax.UrlSegment → Option String
  | constant name => some name.name
  | parameter _ => none

/-- The text of a segment that is a constant. -/
def Resolved.UrlSegment.constant? : Resolved.UrlSegment → Option String
  | constant text => some text
  | parameter _ => none

/-- A clause as it is declared, before any lookup. -/
def Resolved.Clause.ofDeclaration (unit : UnitId) (inferred : Option Inference)
    (declaration : Syntax.Clause) : Resolved.Clause :=
  { declaration, unit, inferred }

namespace Program

open Resolved

/-- Whether a classifier has a record. -/
def HoldsClassifier (program : Program) : ClassifierIndex → Prop
  | .interface index => program.interfaces.Holds index
  | .klass index => program.classes.Holds index

theorem classifier_of_not_holds {program : Program} {classifier : ClassifierIndex}
    (absent : ¬ program.HoldsClassifier classifier) : program.classifier classifier = default := by
  cases classifier with
  | interface index => exact Arena.get_of_not_holds absent
  | klass index => exact congrArg Class.toClassifier (Arena.get_of_not_holds absent)

/-- The ends of associations come in pairs. -/
@[mk_iff]
structure EndsPaired (associations : Arena .association Association)
    (ends : Arena .associationEnd AssociationEnd) : Prop where
  size : ends.size = 2 * associations.size
  source : ∀ association, associations.Holds association →
    (associations.get association).source = ⟨2 * association.value⟩
  target : ∀ association, associations.Holds association →
    (associations.get association).target = ⟨2 * association.value + 1⟩
  association : ∀ associationEnd, ends.Holds associationEnd →
    (ends.get associationEnd).association = ⟨associationEnd.value / 2⟩
  opposite : ∀ associationEnd, ends.Holds associationEnd →
    (ends.get associationEnd).opposite =
      ⟨if associationEnd.value % 2 = 0 then associationEnd.value + 1
        else associationEnd.value - 1⟩
  /-- An end stands in the unit of its association. -/
  units : ∀ associationEnd, ends.Holds associationEnd →
    (ends.get associationEnd).context.unit =
      (associations.get (ends.get associationEnd).association).header.unit

namespace EndsPaired

variable {associations : Arena .association Association}
  {ends : Arena .associationEnd AssociationEnd} (paired : EndsPaired associations ends)
include paired

section Associations
variable {association : AssociationIndex} (holds : associations.Holds association)
include holds

theorem holds_source : ends.Holds (associations.get association).source := by
  rw [paired.source association holds]
  have inside : association.value < associations.size := holds
  change 2 * association.value < ends.size
  rw [paired.size]
  omega

theorem holds_target : ends.Holds (associations.get association).target := by
  rw [paired.target association holds]
  have inside : association.value < associations.size := holds
  change 2 * association.value + 1 < ends.size
  rw [paired.size]
  omega

/-- The ends of an association are its source and its target. -/
theorem association_eq_iff {associationEnd : AssociationEndIndex}
    (held : ends.Holds associationEnd) :
    (ends.get associationEnd).association = association ↔
      associationEnd = (associations.get association).source ∨
        associationEnd = (associations.get association).target := by
  rw [paired.association associationEnd held, paired.source association holds,
    paired.target association holds]
  obtain ⟨position⟩ := association
  obtain ⟨endPosition⟩ := associationEnd
  simp only [Index.mk.injEq]
  omega

/-- The opposite of the source is the target. -/
theorem opposite_source : (ends.get (associations.get association).source).opposite =
    (associations.get association).target := by
  rw [paired.opposite _ (paired.holds_source holds), paired.source association holds,
    paired.target association holds]
  simp

/-- The opposite of the target is the source. -/
theorem opposite_target : (ends.get (associations.get association).target).opposite =
    (associations.get association).source := by
  rw [paired.opposite _ (paired.holds_target holds), paired.source association holds,
    paired.target association holds]
  simp

theorem source_ne_target :
    (associations.get association).source ≠ (associations.get association).target := by
  simp [paired.source association holds, paired.target association holds]

end Associations

section Ends
variable {associationEnd : AssociationEndIndex} (holds : ends.Holds associationEnd)
include holds

theorem holds_association : associations.Holds (ends.get associationEnd).association := by
  rw [paired.association associationEnd holds]
  have inside : associationEnd.value < ends.size := holds
  have size := paired.size
  change associationEnd.value / 2 < associations.size
  omega

theorem holds_opposite : ends.Holds (ends.get associationEnd).opposite := by
  rw [paired.opposite associationEnd holds]
  have inside : associationEnd.value < ends.size := holds
  have size := paired.size
  change (if associationEnd.value % 2 = 0 then associationEnd.value + 1
    else associationEnd.value - 1) < ends.size
  split <;> omega

/-- The opposite of the opposite is the end itself. -/
theorem opposite_opposite :
    (ends.get (ends.get associationEnd).opposite).opposite = associationEnd := by
  rw [paired.opposite _ (paired.holds_opposite holds), paired.opposite _ holds]
  obtain ⟨position⟩ := associationEnd
  simp only [Index.mk.injEq]
  split <;> split <;> omega

theorem opposite_ne : (ends.get associationEnd).opposite ≠ associationEnd := by
  rw [paired.opposite _ holds]
  obtain ⟨position⟩ := associationEnd
  simp only [ne_eq, Index.mk.injEq]
  split <;> omega

end Ends
end EndsPaired

/-- A clause that is inferred for a verb. -/
def IsVersionClause (verb : Verb) (clause : Clause) : Prop :=
  clause.inferred = some .serviceCriteria ∧
    ∃ versionEnd, Service.versionClause verb versionEnd = some clause.declaration.stripped

/-- The clauses of a service are those written, then an inferred one if any. -/
def ClausesWritten (service : Service) : Prop :=
  ∃ inferred : Option Clause, service.clauses.map Clause.unlinked =
      service.declaration.clauses.map (Clause.ofDeclaration service.context.unit none) ++
        inferred.toList ∧
    ∀ clause ∈ inferred, IsVersionClause service.declaration.verb clause

/-- A clause that was not inferred is written in its service. -/
theorem ClausesWritten.of_not_inferred {service : Service} (written : ClausesWritten service)
    {clause : Clause} (member : clause ∈ service.clauses) (inferred : clause.inferred = none) :
    clause.declaration ∈ service.declaration.clauses ∧ clause.unit = service.context.unit := by
  obtain ⟨added, declared, each⟩ := written
  have unlinked := List.mem_map_of_mem (f := Clause.unlinked) member
  rw [declared, List.mem_append, List.mem_map] at unlinked
  rcases unlinked with ⟨declaration, among, same⟩ | isAdded
  · have sameDeclaration : declaration = clause.declaration := congrArg Clause.declaration same
    have sameUnit : service.context.unit = clause.unit := congrArg Clause.unit same
    exact ⟨sameDeclaration ▸ among, sameUnit.symm⟩
  · have added := (each _ (Option.mem_toList.mp isAdded)).1
    change clause.inferred = _ at added
    rw [inferred] at added
    cases added

/-- The path of a url has the constant segments that are written, at the same places. -/
def PathWritten (url : Url) : Prop :=
  url.path.map UrlSegment.constant? = url.declaration.path.map Syntax.UrlSegment.constant?

/-- The unit of the service group that a url belongs to. -/
def requestUnit (program : Program) (url : UrlIndex) : UnitId :=
  (program.serviceGroups.get (program.urls.get url).group).header.unit

/-- Lists of members agree with the owners that members name. -/
@[mk_iff]
structure Coherent (openGroup : Option ServiceGroupIndex) (openUrl : Option UrlIndex)
    (program : Program) : Prop where
  properties : Owned program.HoldsClassifier (fun _ => False) program.properties (·.owner)
    fun classifier => (program.classifier classifier).properties
  endSignatures : Owned program.HoldsClassifier (fun _ => False) program.endSignatures (·.owner)
    fun classifier => (program.classifier classifier).endSignatures
  ends : EndsPaired program.associations program.associationEnds
  urls : Owned program.serviceGroups.Holds (openGroup = some ·) program.urls (·.group)
    fun group => (program.serviceGroups.get group).urls
  parameters : Owned program.urls.Holds (openUrl = some ·) program.parameters (·.url)
    fun url => (program.urls.get url).parameters
  services : Owned program.urls.Holds (openUrl = some ·) program.services (·.url)
    fun url => (program.urls.get url).services
  /-- The constant segments of a path are those written. -/
  pathsWritten : ∀ url, program.urls.Holds url → ¬ openUrl = some url →
    PathWritten (program.urls.get url)
  /-- A url has a parameter for each one that is written. -/
  parametersWritten : ∀ url, program.urls.Holds url → ¬ openUrl = some url →
    (program.urls.get url).parameters.map (fun parameter =>
      (program.parameters.get parameter).declaration) =
        (program.urls.get url).declaration.parameters
  /-- A url has a service for each one that is written. -/
  servicesWritten : ∀ url, program.urls.Holds url → ¬ openUrl = some url →
    (program.urls.get url).services.map (fun service =>
      (program.services.get service).declaration) = (program.urls.get url).declaration.services
  clauses : ∀ service, program.services.Holds service →
    ClausesWritten (program.services.get service)
  /-- A parameter stands in the unit of its group. -/
  parameterUnits : ∀ parameter, program.parameters.Holds parameter →
    (program.parameters.get parameter).context.unit =
      program.requestUnit (program.parameters.get parameter).url
  /-- A service stands in the unit of its group. -/
  serviceUnits : ∀ service, program.services.Holds service →
    (program.services.get service).context.unit =
      program.requestUnit (program.services.get service).url

/-- All clauses inferred for a verb are of one kind. -/
theorem kind_versionClause {verb : Verb} {first second : String} {clause other : Syntax.Clause}
    (made : Service.versionClause verb first = some clause)
    (also : Service.versionClause verb second = some other) : clause.kind = other.kind := by
  cases verb <;> cases made <;> cases also <;> rfl

/-- A service has at most one inferred clause, for a second one would be of the same kind. -/
theorem ClausesWritten.add {service : Service} (written : ClausesWritten service)
    {clause : Clause} (inferred : IsVersionClause service.declaration.verb clause)
    (unlinked : clause.unlinked = clause) (missing : service.hasClause clause.kind = false) :
    ClausesWritten { service with clauses := service.clauses ++ [clause] } := by
  obtain ⟨earlier, same, each⟩ := written
  cases earlier with
  | none =>
    refine ⟨some clause, by simpa [unlinked] using same, ?_⟩
    rintro _ ⟨⟩
    exact inferred
  | some other =>
    obtain ⟨-, _, made⟩ := each other rfl
    obtain ⟨-, _, also⟩ := inferred
    have present : other ∈ service.clauses.map Clause.unlinked := by simp [same]
    obtain ⟨linked, member, rfl⟩ := List.mem_map.mp present
    have sameKind : linked.declaration.stripped.kind = clause.declaration.stripped.kind :=
      kind_versionClause made also
    simp only [Service.hasClause, List.any_eq_false, decide_eq_true_eq] at missing
    exact absurd sameKind (missing linked member)

section ModifyClassifier

variable {program : Program} {index other : ClassifierIndex} {change : Classifier → Classifier}

@[simp]
theorem holdsClassifier_modifyClassifier :
    (program.modifyClassifier index change).HoldsClassifier other ↔
      program.HoldsClassifier other := by
  cases index <;> cases other <;> simp [modifyClassifier, HoldsClassifier]

theorem classifier_modifyClassifier_self (holds : program.HoldsClassifier index) :
    (program.modifyClassifier index change).classifier index =
      change (program.classifier index) := by
  cases index with
  | interface index => exact Arena.get_modify_self holds _
  | klass index =>
    have changed := Arena.get_modify_self holds fun klass : Resolved.Class =>
      { klass with toClassifier := change klass.toClassifier }
    simp only [modifyClassifier, classifier, changed]

theorem classifier_modifyClassifier_of_ne (different : other ≠ index) :
    (program.modifyClassifier index change).classifier other = program.classifier other := by
  cases index with
  | interface index =>
    cases other with
    | interface other =>
      exact Arena.get_modify_of_ne (fun equal => different (congrArg _ equal)) _
    | klass other => rfl
  | klass index =>
    cases other with
    | interface other => rfl
    | klass other =>
      have apart : other ≠ index := fun equal => different (congrArg _ equal)
      simp only [modifyClassifier, classifier, Arena.get_modify_of_ne apart]

/-- Only classifiers change. -/
theorem modifyClassifier_eq (program : Program) (index : ClassifierIndex)
    (change : Classifier → Classifier) : ∃ interfaces classes,
      program.modifyClassifier index change = { program with interfaces, classes } := by
  cases index with
  | interface index => exact ⟨program.interfaces.modify index change, program.classes, rfl⟩
  | klass index =>
    exact ⟨program.interfaces, program.classes.modify index fun klass =>
      { klass with toClassifier := change klass.toClassifier }, rfl⟩

end ModifyClassifier

section Members

variable {kind : RecordKind} {α : Type} [Inhabited α] {arena : Arena kind α}
  {owner : α → ClassifierIndex} (program : Program) (listed : Classifier → List (Index kind))
  (change : Classifier → Classifier)

/-- A member is added to the arena and to the list of its owner. -/
theorem owned_push_member (record : α)
    (owned : Owned program.HoldsClassifier (fun _ => False) arena owner
      fun classifier => listed (program.classifier classifier))
    (holds : program.HoldsClassifier (owner record))
    (appends : ∀ classifier, listed (change classifier) = listed classifier ++ [arena.next]) :
    Owned (program.modifyClassifier (owner record) change).HoldsClassifier (fun _ => False)
      (arena.push record) owner fun classifier =>
        listed ((program.modifyClassifier (owner record) change).classifier classifier) := by
  apply owned.push record (fun _ => holdsClassifier_modifyClassifier) holds
  · right
    rw [classifier_modifyClassifier_self holds, appends]
  · intro other _ different
    rw [classifier_modifyClassifier_of_ne different]

/-- Members of another kind do not matter. -/
theorem owned_modifyClassifier (index : ClassifierIndex)
    (owned : Owned program.HoldsClassifier (fun _ => False) arena owner
      fun classifier => listed (program.classifier classifier))
    (unseen : ∀ classifier, listed (change classifier) = listed classifier) :
    Owned (program.modifyClassifier index change).HoldsClassifier (fun _ => False) arena owner
      fun classifier => listed ((program.modifyClassifier index change).classifier classifier) := by
  apply owned.congr (fun _ => holdsClassifier_modifyClassifier) (fun _ => id) _ rfl fun _ _ => rfl
  intro other holds
  by_cases equal : other = index
  · subst equal
    rw [classifier_modifyClassifier_self holds, unseen]
  · rw [classifier_modifyClassifier_of_ne equal]

end Members

/-- Add a property to the list of its owner. -/
def addProperty (program : Program) (record : Property) : Program :=
  ({ program with properties := program.properties.push record } : Program).modifyClassifier
    record.owner fun classifier =>
      { classifier with properties := classifier.properties ++ [program.properties.next] }

/-- Add an end signature to the list of its owner. -/
def addEndSignature (program : Program) (record : EndSignature) : Program :=
  ({ program with endSignatures := program.endSignatures.push record } : Program).modifyClassifier
    record.owner fun classifier =>
      { classifier with endSignatures := classifier.endSignatures ++ [program.endSignatures.next] }

/-- An association is declared together with its two ends. -/
theorem EndsPaired.push {associations : Arena .association Association}
    {ends : Arena .associationEnd AssociationEnd} (paired : EndsPaired associations ends)
    {association : Association} {source target : AssociationEnd}
    (sourceIndex : association.source = ends.next)
    (targetIndex : association.target = ⟨ends.next.value + 1⟩)
    (ofSource : source.association = associations.next)
    (ofTarget : target.association = associations.next)
    (beyondSource : source.opposite = ⟨ends.next.value + 1⟩)
    (beyondTarget : target.opposite = ends.next)
    (sourceUnit : source.context.unit = association.header.unit)
    (targetUnit : target.context.unit = association.header.unit) :
    EndsPaired (associations.push association) ((ends.push source).push target) := by
  have size := paired.size
  have sourceAt : (ends.push source).next.value = ends.size + 1 := by simp [Arena.next]
  -- Every end is an earlier one, the new source or the new target.
  have ofEnd {motive : AssociationEndIndex → AssociationEnd → Prop}
      (old : ∀ index, ends.Holds index → motive index (ends.get index))
      (ofSource : motive ends.next source) (ofTarget : motive (ends.push source).next target) :
      ∀ index, ((ends.push source).push target).Holds index →
        motive index (((ends.push source).push target).get index) :=
    Arena.forall_push (Arena.forall_push old ofSource) ofTarget
  refine ⟨by simp [size]; omega, ?_, ?_, ?_, ?_, ?_⟩
  · exact Arena.forall_push (motive := fun index (record : Association) =>
      record.source = ⟨2 * index.value⟩) paired.source (by simp [sourceIndex, Arena.next, size])
  · exact Arena.forall_push (motive := fun index (record : Association) =>
      record.target = ⟨2 * index.value + 1⟩) paired.target (by simp [targetIndex, Arena.next, size])
  · refine ofEnd (motive := fun index record => record.association = ⟨index.value / 2⟩)
      paired.association (by simp [ofSource, Arena.next, size]) ?_
    rw [ofTarget, sourceAt, size]
    simp only [Arena.next, Index.mk.injEq]
    omega
  · refine ofEnd (motive := fun index record => record.opposite =
        ⟨if index.value % 2 = 0 then index.value + 1 else index.value - 1⟩)
      paired.opposite (by simp [beyondSource, Arena.next, size]) ?_
    rw [beyondTarget, sourceAt, size]
    simp [Arena.next, size]
  · refine ofEnd (motive := fun _ record => record.context.unit =
        ((associations.push association).get record.association).header.unit)
      (fun index old => ?_) (by simp [ofSource, sourceUnit]) (by simp [ofTarget, targetUnit])
    rw [Arena.get_push_of_holds (paired.holds_association old)]
    exact paired.units index old

namespace Coherent

variable {program : Program} {openGroup : Option ServiceGroupIndex} {openUrl : Option UrlIndex}

theorem empty : Coherent none none {} where
  properties := .empty (by rintro (_ | _) <;> exact Nat.not_lt_zero _)
  endSignatures := .empty (by rintro (_ | _) <;> exact Nat.not_lt_zero _)
  ends := ⟨rfl, by rintro _ ⟨⟩, by rintro _ ⟨⟩, by rintro _ ⟨⟩, by rintro _ ⟨⟩, by rintro _ ⟨⟩⟩
  urls := .empty fun _ => Nat.not_lt_zero _
  parameters := .empty fun _ => Nat.not_lt_zero _
  services := .empty fun _ => Nat.not_lt_zero _
  pathsWritten := by rintro _ ⟨⟩
  parametersWritten := by rintro _ ⟨⟩
  servicesWritten := by rintro _ ⟨⟩
  clauses := by rintro _ ⟨⟩
  parameterUnits := by rintro _ ⟨⟩
  serviceUnits := by rintro _ ⟨⟩

theorem addProperty (coherent : program.Coherent openGroup openUrl) {record : Property}
    (holds : program.HoldsClassifier record.owner) :
    (program.addProperty record).Coherent openGroup openUrl := by
  let added : Program := { program with properties := program.properties.push record }
  let change (classifier : Classifier) : Classifier :=
    { classifier with properties := classifier.properties ++ [program.properties.next] }
  have properties := owned_push_member added Classifier.properties change record
    coherent.properties holds fun _ => rfl
  have endSignatures := owned_modifyClassifier added Classifier.endSignatures change record.owner
    coherent.endSignatures fun _ => rfl
  change (added.modifyClassifier record.owner change).Coherent openGroup openUrl
  obtain ⟨interfaces, classes, equal⟩ := modifyClassifier_eq added record.owner change
  rw [equal] at properties endSignatures ⊢
  exact { coherent with properties, endSignatures }

theorem addEndSignature (coherent : program.Coherent openGroup openUrl) {record : EndSignature}
    (holds : program.HoldsClassifier record.owner) :
    (program.addEndSignature record).Coherent openGroup openUrl := by
  let added : Program := { program with endSignatures := program.endSignatures.push record }
  let change (classifier : Classifier) : Classifier :=
    { classifier with endSignatures := classifier.endSignatures ++ [program.endSignatures.next] }
  have properties := owned_modifyClassifier added Classifier.properties change record.owner
    coherent.properties fun _ => rfl
  have endSignatures := owned_push_member added Classifier.endSignatures change record
    coherent.endSignatures holds fun _ => rfl
  change (added.modifyClassifier record.owner change).Coherent openGroup openUrl
  obtain ⟨interfaces, classes, equal⟩ := modifyClassifier_eq added record.owner change
  rw [equal] at properties endSignatures ⊢
  exact { coherent with properties, endSignatures }

/-- A classifier that is declared starts without members. -/
theorem addClassifier (coherent : program.Coherent openGroup openUrl)
    {interfaces : Arena .interface Classifier} {classes : Arena .klass Resolved.Class}
    (new : ClassifierIndex) (fresh : ¬ program.HoldsClassifier new)
    (held : ∀ classifier,
      ({ program with interfaces, classes } : Program).HoldsClassifier classifier ↔
        program.HoldsClassifier classifier ∨ classifier = new)
    (same : ∀ classifier, program.HoldsClassifier classifier →
      ({ program with interfaces, classes } : Program).classifier classifier =
        program.classifier classifier)
    (noProperties :
      (({ program with interfaces, classes } : Program).classifier new).properties = [])
    (noSignatures :
      (({ program with interfaces, classes } : Program).classifier new).endSignatures = []) :
    ({ program with interfaces, classes } : Program).Coherent openGroup openUrl :=
  { coherent with
    properties := coherent.properties.addOwner held fresh (fun _ => id) noProperties
      fun classifier holds => congrArg Classifier.properties (same classifier holds)
    endSignatures := coherent.endSignatures.addOwner held fresh (fun _ => id) noSignatures
      fun classifier holds => congrArg Classifier.endSignatures (same classifier holds) }

theorem addInterface (coherent : program.Coherent openGroup openUrl) {record : Classifier}
    (noProperties : record.properties = []) (noSignatures : record.endSignatures = []) :
    ({ program with interfaces := program.interfaces.push record } : Program).Coherent
      openGroup openUrl := by
  apply addClassifier coherent (.interface program.interfaces.next)
  · exact program.interfaces.not_holds_next
  · rintro (index | index)
    · simp [HoldsClassifier, Arena.holds_push]
    · simp [HoldsClassifier]
  · rintro (index | index) holds
    · exact Arena.get_push_of_holds holds record
    · rfl
  · simp [classifier, noProperties]
  · simp [classifier, noSignatures]

theorem addClass (coherent : program.Coherent openGroup openUrl) {record : Resolved.Class}
    (noProperties : record.properties = []) (noSignatures : record.endSignatures = []) :
    ({ program with classes := program.classes.push record } : Program).Coherent
      openGroup openUrl := by
  apply addClassifier coherent (.klass program.classes.next)
  · exact program.classes.not_holds_next
  · rintro (index | index)
    · simp [HoldsClassifier]
    · simp [HoldsClassifier, Arena.holds_push]
  · rintro (index | index) holds
    · rfl
    · exact congrArg Class.toClassifier (Arena.get_push_of_holds holds record)
  · simp [classifier, noProperties]
  · simp [classifier, noSignatures]

/-- Members of urls stand in the unit of their group when every url keeps it. -/
theorem units_of_eq (coherent : program.Coherent openGroup openUrl) {unit : UrlIndex → UnitId}
    (same : ∀ url, program.urls.Holds url → unit url = program.requestUnit url) :
    (∀ parameter, program.parameters.Holds parameter →
      (program.parameters.get parameter).context.unit =
        unit (program.parameters.get parameter).url) ∧
    ∀ service, program.services.Holds service →
      (program.services.get service).context.unit = unit (program.services.get service).url := by
  constructor
  · intro parameter held
    rw [coherent.parameterUnits parameter held, same _ (coherent.parameters.held_owner _ held)]
  · intro service held
    rw [coherent.serviceUnits service held, same _ (coherent.services.held_owner _ held)]

/-- A service group that is declared starts without urls. -/
theorem addServiceGroup (coherent : program.Coherent openGroup openUrl) {record : ServiceGroup}
    (noUrls : record.urls = []) :
    ({ program with serviceGroups := program.serviceGroups.push record } : Program).Coherent
      openGroup openUrl :=
  have sameUnit (url : UrlIndex) (held : program.urls.Holds url) :
      ({ program with serviceGroups := program.serviceGroups.push record } : Program).requestUnit
        url = program.requestUnit url := by
    rw [requestUnit, Arena.get_push_of_holds (coherent.urls.held_owner url held)]
    rfl
  { coherent with
    urls := coherent.urls.addOwner (fun _ => Arena.holds_push)
      program.serviceGroups.not_holds_next (fun _ => id) (by simp [noUrls])
      fun group holds => congrArg ServiceGroup.urls (Arena.get_push_of_holds holds record)
    parameterUnits := (coherent.units_of_eq sameUnit).1
    serviceUnits := (coherent.units_of_eq sameUnit).2 }

/-- Any service group may be taken as open. -/
theorem openServiceGroup (coherent : program.Coherent none openUrl) (group : ServiceGroupIndex) :
    program.Coherent (some group) openUrl :=
  { coherent with
    urls := coherent.urls.congr (fun _ => Iff.rfl) (by simp) (fun _ _ => rfl) rfl
      fun _ _ => rfl }

/-- Fill in the urls of the open service group. -/
theorem closeServiceGroup {group : ServiceGroupIndex}
    (coherent : program.Coherent (some group) openUrl) (holds : program.serviceGroups.Holds group)
    {urls : List UrlIndex} (all : urls = program.urls.select fun url => url.group = group) :
    ({ program with
      serviceGroups := program.serviceGroups.modify group fun record =>
        { record with urls } } : Program).Coherent none openUrl :=
  have sameUnit (url : UrlIndex) (_ : program.urls.Holds url) :
      ({ program with
        serviceGroups := program.serviceGroups.modify group fun record =>
          { record with urls } } : Program).requestUnit url = program.requestUnit url :=
    congrArg Header.unit (Arena.field_get_modify ServiceGroup.header (fun _ => by rfl) _)
  { coherent with
    urls := coherent.urls.close holds all
    parameterUnits := (coherent.units_of_eq sameUnit).1
    serviceUnits := (coherent.units_of_eq sameUnit).2 }

/-- A url that is declared in the open service group is itself open. -/
theorem addUrl {group : ServiceGroupIndex} (coherent : program.Coherent (some group) none)
    (holds : program.serviceGroups.Holds group) {record : Url} (inGroup : record.group = group)
    (noParameters : record.parameters = []) (noServices : record.services = []) :
    ({ program with urls := program.urls.push record } : Program).Coherent (some group)
      (some program.urls.next) :=
  have sameUnit (url : UrlIndex) (held : program.urls.Holds url) :
      ({ program with urls := program.urls.push record } : Program).requestUnit url =
        program.requestUnit url := by
    rw [requestUnit, Arena.get_push_of_holds held]
    rfl
  have settled (written : Url → Prop)
      (old : ∀ url, program.urls.Holds url → ¬ none = some url → written (program.urls.get url)) :
      ∀ url, (program.urls.push record).Holds url → ¬ some program.urls.next = some url →
        written ((program.urls.push record).get url) :=
    Arena.forall_push
      (motive := fun url record => ¬ some program.urls.next = some url → written record)
      (fun url held _ => old url held (by simp)) (absurd rfl)
  { coherent with
    urls := coherent.urls.push record (fun _ => Iff.rfl) (inGroup ▸ holds)
      (.inl (congrArg some inGroup.symm)) fun _ _ _ => rfl
    parameters := coherent.parameters.addOwner (fun _ => Arena.holds_push)
      program.urls.not_holds_next (by simp) (by simp [noParameters])
      fun url held => congrArg Url.parameters (Arena.get_push_of_holds held record)
    services := coherent.services.addOwner (fun _ => Arena.holds_push)
      program.urls.not_holds_next (by simp) (by simp [noServices])
      fun url held => congrArg Url.services (Arena.get_push_of_holds held record)
    pathsWritten := settled PathWritten coherent.pathsWritten
    parametersWritten := settled (fun record => record.parameters.map (fun parameter =>
      (program.parameters.get parameter).declaration) = record.declaration.parameters)
      coherent.parametersWritten
    servicesWritten := settled (fun record => record.services.map (fun service =>
      (program.services.get service).declaration) = record.declaration.services)
      coherent.servicesWritten
    parameterUnits := (coherent.units_of_eq sameUnit).1
    serviceUnits := (coherent.units_of_eq sameUnit).2 }

/-- A parameter is added while its url is open. -/
theorem addParameter {url : UrlIndex} (coherent : program.Coherent openGroup (some url))
    (holds : program.urls.Holds url) {record : Parameter} (ofUrl : record.url = url)
    (inUnit : record.context.unit = program.requestUnit url) :
    ({ program with parameters := program.parameters.push record } : Program).Coherent openGroup
      (some url) :=
  { coherent with
    parameters := coherent.parameters.push record (fun _ => Iff.rfl) (ofUrl ▸ holds)
      (.inl (congrArg some ofUrl.symm)) fun _ _ _ => rfl
    parametersWritten := by
      intro other held settled
      rw [← coherent.parametersWritten other held settled]
      exact coherent.parameters.map_push held settled Parameter.declaration record
    parameterUnits := Arena.forall_push
      (motive := fun _ (record : Parameter) =>
        record.context.unit = program.requestUnit record.url)
      coherent.parameterUnits (ofUrl ▸ inUnit) }

/-- A service is added with its clauses while its url is open. -/
theorem addService {url : UrlIndex} (coherent : program.Coherent openGroup (some url))
    (holds : program.urls.Holds url) {record : Service} (ofUrl : record.url = url)
    (written : ClausesWritten record)
    (inUnit : record.context.unit = program.requestUnit url) :
    ({ program with services := program.services.push record } : Program).Coherent openGroup
      (some url) :=
  { coherent with
    services := coherent.services.push record (fun _ => Iff.rfl) (ofUrl ▸ holds)
      (.inl (congrArg some ofUrl.symm)) fun _ _ _ => rfl
    servicesWritten := by
      intro other held settled
      rw [← coherent.servicesWritten other held settled]
      exact coherent.services.map_push held settled Service.declaration record
    clauses := Arena.forall_push (motive := fun _ => ClausesWritten) coherent.clauses written
    serviceUnits := Arena.forall_push
      (motive := fun _ (record : Service) =>
        record.context.unit = program.requestUnit record.url)
      coherent.serviceUnits (ofUrl ▸ inUnit) }

/-- Fill in the parameters and services of the open url. -/
theorem closeUrl {url : UrlIndex} (coherent : program.Coherent openGroup (some url))
    (holds : program.urls.Holds url) {change : Url → Url}
    (sameGroup : ∀ record, (change record).group = record.group)
    (allParameters : (change (program.urls.get url)).parameters =
      program.parameters.select fun parameter => parameter.url = url)
    (allServices : (change (program.urls.get url)).services =
      program.services.select fun service => service.url = url)
    (pathWritten : PathWritten (change (program.urls.get url)))
    (parametersWritten : (change (program.urls.get url)).parameters.map (fun parameter =>
      (program.parameters.get parameter).declaration) =
        (change (program.urls.get url)).declaration.parameters)
    (servicesWritten : (change (program.urls.get url)).services.map (fun service =>
      (program.services.get service).declaration) =
        (change (program.urls.get url)).declaration.services) :
    ({ program with urls := program.urls.modify url change } : Program).Coherent openGroup
      none :=
  have keepsGroup (other : UrlIndex) :
      ((program.urls.modify url change).get other).group = (program.urls.get other).group :=
    Arena.field_get_modify Url.group sameGroup other
  have sameUnit (other : UrlIndex) (_ : program.urls.Holds other) :
      ({ program with urls := program.urls.modify url change } : Program).requestUnit other =
        program.requestUnit other := by
    rw [requestUnit, keepsGroup]
    rfl
  have settled (written : Url → Prop) (new : written (change (program.urls.get url)))
      (old : ∀ other, program.urls.Holds other → ¬ some url = some other →
        written (program.urls.get other)) (other : UrlIndex)
      (held : (program.urls.modify url change).Holds other) (_ : ¬ none = some other) :
      written ((program.urls.modify url change).get other) :=
    Arena.forall_modify (motive := fun _ => written)
      (fun other held different => old other held fun same => different (Option.some.inj same).symm)
      (fun _ => new) other held
  { coherent with
    urls := coherent.urls.congr (fun _ => Iff.rfl) (fun _ => id) (fun _ _ => rfl)
      (Arena.size_modify ..) fun other _ => keepsGroup other
    parameters := coherent.parameters.close holds allParameters
    services := coherent.services.close holds allServices
    pathsWritten := settled PathWritten pathWritten coherent.pathsWritten
    parametersWritten := settled (fun record => record.parameters.map (fun parameter =>
      (program.parameters.get parameter).declaration) = record.declaration.parameters)
      parametersWritten coherent.parametersWritten
    servicesWritten := settled (fun record => record.services.map (fun service =>
      (program.services.get service).declaration) = record.declaration.services)
      servicesWritten coherent.servicesWritten
    parameterUnits := (coherent.units_of_eq sameUnit).1
    serviceUnits := (coherent.units_of_eq sameUnit).2 }

/-- Add a missing clause to a service. -/
theorem addClause (coherent : program.Coherent openGroup openUrl) {index : ServiceIndex}
    {clause : Clause}
    (inferred : IsVersionClause (program.services.get index).declaration.verb clause)
    (unlinked : clause.unlinked = clause)
    (missing : (program.services.get index).hasClause clause.kind = false) :
    ({ program with
      services := program.services.modify index fun record =>
        { record with clauses := record.clauses ++ [clause] } } : Program).Coherent openGroup
      openUrl :=
  { coherent with
    services := coherent.services.congr (fun _ => Iff.rfl) (fun _ => id) (fun _ _ => rfl)
      (Arena.size_modify ..) fun other _ =>
        Arena.field_get_modify Service.url (fun _ => by rfl) other
    servicesWritten := by
      intro url held settled
      rw [← coherent.servicesWritten url held settled]
      exact List.map_congr_left fun service _ =>
        Arena.field_get_modify Service.declaration (fun _ => by rfl) service
    clauses := Arena.forall_modify (motive := fun _ => ClausesWritten)
      (fun service held _ => coherent.clauses service held)
      fun held => (coherent.clauses index held).add inferred unlinked missing
    serviceUnits := Arena.forall_modify
      (motive := fun _ (record : Service) =>
        record.context.unit = program.requestUnit record.url)
      (fun service held _ => coherent.serviceUnits service held) (coherent.serviceUnits index) }

section Unlinked

variable (program)

theorem classifier_unlinked (classifier : ClassifierIndex) :
    program.unlinked.classifier classifier = (program.classifier classifier).unlinked := by
  cases classifier with
  | interface index => exact Arena.get_map_of_fixed rfl index
  | klass index =>
    have changed : program.unlinked.classes.get index = (program.classes.get index).unlinked :=
      Arena.get_map_of_fixed rfl index
    exact congrArg Class.toClassifier changed

/-- Outcomes of lookups do not matter. -/
theorem unlinked_iff :
    program.unlinked.Coherent openGroup openUrl ↔ program.Coherent openGroup openUrl := by
  have held (classifier : ClassifierIndex) :
      program.unlinked.HoldsClassifier classifier ↔ program.HoldsClassifier classifier := by
    cases classifier <;> exact Arena.holds_map
  -- What is read of a record is the same, and so is what is selected by owner.
  have propertiesOf (holder : ClassifierIndex) :
      (program.unlinked.properties.select fun record => record.owner = holder) =
        program.properties.select fun record => record.owner = holder :=
    Arena.select_map fun _ => rfl
  have endSignaturesOf (holder : ClassifierIndex) :
      (program.unlinked.endSignatures.select fun record => record.owner = holder) =
        program.endSignatures.select fun record => record.owner = holder :=
    Arena.select_map fun _ => rfl
  have parametersOf (holder : UrlIndex) :
      (program.unlinked.parameters.select fun record => record.url = holder) =
        program.parameters.select fun record => record.url = holder :=
    Arena.select_map fun _ => rfl
  have servicesOf (holder : UrlIndex) :
      (program.unlinked.services.select fun record => record.url = holder) =
        program.services.select fun record => record.url = holder :=
    Arena.select_map fun _ => rfl
  simp only [coherent_iff, owned_iff, endsPaired_iff, requestUnit, ClausesWritten, held,
    classifier_unlinked, propertiesOf, endSignaturesOf, parametersOf, servicesOf]
  simp only [unlinked, Arena.holds_map, Arena.size_map,
    Arena.get_map_of_fixed (rfl : Property.unlinked default = default),
    Arena.get_map_of_fixed (rfl : EndSignature.unlinked default = default),
    Arena.get_map_of_fixed (rfl : Association.unlinked default = default),
    Arena.get_map_of_fixed (rfl : AssociationEnd.unlinked default = default),
    Arena.get_map_of_fixed (rfl : ServiceGroup.unlinked default = default),
    Arena.get_map_of_fixed (rfl : Parameter.unlinked default = default),
    Arena.get_map_of_fixed (rfl : Service.unlinked default = default),
    Service.unlinked, List.map_map]
  rfl

end Unlinked

theorem of_unlinked_eq {before after : Program} (same : before.unlinked = after.unlinked)
    (coherent : before.Coherent openGroup openUrl) : after.Coherent openGroup openUrl := by
  rw [← unlinked_iff] at coherent ⊢
  rwa [← same]

end Coherent
end Program
end DomainLang
