import DomainLang.Program.Basic
import DomainLang.Proofs.Arena

/-!
# Programs only grow

A record is never taken away, and what was written in its declaration never changes:
an analysis adds records, fills in the outcomes of lookups and adds inferred members
and clauses. `Resolved.Class.unlinked` and its siblings blank out the outcomes of
lookups, and `Resolved.Class.written` also what is added to a record later.
`Program.Keeps` says that every record is still there and that its written part is the
same.
-/

namespace DomainLang

namespace Resolved

def Classifier.unlinked (classifier : Classifier) : Classifier :=
  { classifier with interfaces := [] }

def Classifier.written (classifier : Classifier) : Classifier :=
  { classifier.unlinked with properties := [], endSignatures := [] }

def Class.unlinked (klass : Class) : Class :=
  { klass with
    toClassifier := klass.toClassifier.unlinked
    superclass := none
    associationEnds := [] }

def Class.written (klass : Class) : Class :=
  { klass.unlinked with toClassifier := klass.toClassifier.written }

def Property.unlinked (property : Property) : Property :=
  { property with enumeration := none }

def EndSignature.unlinked (signature : EndSignature) : EndSignature :=
  { signature with target := none }

def Association.unlinked (association : Association) : Association :=
  { association with relationship := none, join := none, foreignKeys := [] }

def AssociationEnd.unlinked (associationEnd : AssociationEnd) : AssociationEnd :=
  { associationEnd with target := .notFound, owner := none, orderBy := none }

def Projection.unlinked (projection : Projection) : Projection :=
  { projection with classifier := none, children := [] }

def ServiceGroup.unlinked (group : ServiceGroup) : ServiceGroup :=
  { group with klass := none }

def Parameter.unlinked (parameter : Parameter) : Parameter :=
  { parameter with enumeration := none }

def Clause.unlinked (clause : Clause) : Clause :=
  { clause with criteria := none }

def Service.unlinked (service : Service) : Service :=
  { service with
    clauses := service.clauses.map Clause.unlinked
    projection := none
    orderBy := none }

def Service.written (service : Service) : Service :=
  { service.unlinked with
    clauses := service.unlinked.clauses.filter fun clause => clause.inferred.isNone }

end Resolved

namespace Arena

variable {kind : RecordKind} {α β : Type} [Inhabited α] {view : α → β}
  {before middle after : Arena kind α}

/-- Every record is still there and looks the same. -/
def Keeps (view : α → β) (before after : Arena kind α) : Prop :=
  ∀ index, before.Holds index →
    after.Holds index ∧ view (after.get index) = view (before.get index)

theorem Keeps.refl (arena : Arena kind α) : Keeps view arena arena :=
  fun _ holds => ⟨holds, rfl⟩

theorem Keeps.trans (first : Keeps view before middle) (second : Keeps view middle after) :
    Keeps view before after := by
  intro index holds
  obtain ⟨held, same⟩ := first index holds
  obtain ⟨stillHeld, still⟩ := second index held
  exact ⟨stillHeld, still.trans same⟩

/-- A new record leaves the earlier ones as they are seen. -/
theorem Keeps.push (keeps : Keeps view before middle) (record : α) :
    Keeps view before (middle.push record) := by
  intro index holds
  obtain ⟨held, same⟩ := keeps index holds
  exact ⟨held.push record, by rw [get_push_of_holds held, same]⟩

/-- Records that were added at the end do not matter. -/
theorem Keeps.of_append {records : List α} (more : after.records = before.records ++ records) :
    Keeps view before after := by
  intro index holds
  have inside : index.value < before.records.length := holds
  refine ⟨by simp only [Holds, size, more, List.length_append]; omega, ?_⟩
  simp [get, more, List.getD_eq_getElem?_getD, List.getElem?_append_left inside]

/-- So does a change that is not seen. -/
theorem Keeps.modify (keeps : Keeps view before middle) {index : Index kind} {change : α → α}
    (unseen : ∀ record, view (change record) = view record) :
    Keeps view before (middle.modify index change) := by
  intro other holds
  obtain ⟨held, same⟩ := keeps other holds
  refine ⟨holds_modify.mpr held, ?_⟩
  by_cases equal : other = index
  · subst equal
    rw [get_modify_self held, unseen, same]
  · rw [get_modify_of_ne equal, same]

/-- Arenas that look the same keep each other's records. -/
theorem Keeps.of_map_eq {γ : Type} {finer : α → α} (same : before.map finer = after.map finer)
    {coarser : α → γ} (factors : ∀ record, coarser (finer record) = coarser record) :
    Keeps coarser before after := by
  intro index holds
  have held : after.Holds index := by
    have mapped : (before.map finer).Holds index := holds_map.mpr holds
    rw [same] at mapped
    exact holds_map.mp mapped
  refine ⟨held, ?_⟩
  have alike : finer (after.get index) = finer (before.get index) := by
    rw [← get_map held finer, ← get_map holds finer, same]
  rw [← factors (after.get index), alike, factors]

end Arena

namespace Program

open Resolved

/-- The program before any lookup. -/
def unlinked (program : Program) : Program where
  enumerations := program.enumerations
  interfaces := program.interfaces.map Classifier.unlinked
  classes := program.classes.map Class.unlinked
  properties := program.properties.map Property.unlinked
  endSignatures := program.endSignatures.map EndSignature.unlinked
  associations := program.associations.map Association.unlinked
  associationEnds := program.associationEnds.map AssociationEnd.unlinked
  projections := program.projections.map Projection.unlinked
  serviceGroups := program.serviceGroups.map ServiceGroup.unlinked
  urls := program.urls
  parameters := program.parameters.map Parameter.unlinked
  services := program.services.map Service.unlinked

/-- Every record of the first program is in the second one with the same written part. -/
structure Keeps (before after : Program) : Prop where
  enumerations : before.enumerations.Keeps id after.enumerations
  interfaces : before.interfaces.Keeps Classifier.written after.interfaces
  classes : before.classes.Keeps Class.written after.classes
  properties : before.properties.Keeps Property.unlinked after.properties
  endSignatures : before.endSignatures.Keeps EndSignature.unlinked after.endSignatures
  associations : before.associations.Keeps Association.unlinked after.associations
  associationEnds : before.associationEnds.Keeps AssociationEnd.unlinked after.associationEnds
  projections : before.projections.Keeps Projection.unlinked after.projections
  serviceGroups : before.serviceGroups.Keeps ServiceGroup.unlinked after.serviceGroups
  urls : before.urls.Keeps id after.urls
  parameters : before.parameters.Keeps Parameter.unlinked after.parameters
  services : before.services.Keeps Service.written after.services

namespace Keeps

theorem refl (program : Program) : Keeps program program :=
  ⟨.refl _, .refl _, .refl _, .refl _, .refl _, .refl _, .refl _, .refl _, .refl _, .refl _,
    .refl _, .refl _⟩

theorem trans {before middle after : Program} (first : Keeps before middle)
    (second : Keeps middle after) : Keeps before after where
  enumerations := first.enumerations.trans second.enumerations
  interfaces := first.interfaces.trans second.interfaces
  classes := first.classes.trans second.classes
  properties := first.properties.trans second.properties
  endSignatures := first.endSignatures.trans second.endSignatures
  associations := first.associations.trans second.associations
  associationEnds := first.associationEnds.trans second.associationEnds
  projections := first.projections.trans second.projections
  serviceGroups := first.serviceGroups.trans second.serviceGroups
  urls := first.urls.trans second.urls
  parameters := first.parameters.trans second.parameters
  services := first.services.trans second.services

section Additions

variable {program : Program}

/-- A new record of any kind keeps the program. -/
theorem addEnumeration (record : Enumeration) :
    program.Keeps { program with enumerations := program.enumerations.push record } :=
  { refl program with enumerations := (Arena.Keeps.refl _).push record }

theorem addInterface (record : Classifier) :
    program.Keeps { program with interfaces := program.interfaces.push record } :=
  { refl program with interfaces := (Arena.Keeps.refl _).push record }

theorem addClass (record : Resolved.Class) :
    program.Keeps { program with classes := program.classes.push record } :=
  { refl program with classes := (Arena.Keeps.refl _).push record }

theorem addEnds (source target : AssociationEnd) :
    program.Keeps { program with
      associationEnds := (program.associationEnds.push source).push target } :=
  { refl program with
    associationEnds := ((Arena.Keeps.refl _).push source).push target }

theorem addAssociation (record : Association) :
    program.Keeps { program with associations := program.associations.push record } :=
  { refl program with associations := (Arena.Keeps.refl _).push record }

theorem addProjection (record : Projection) :
    program.Keeps { program with projections := program.projections.push record } :=
  { refl program with projections := (Arena.Keeps.refl _).push record }

theorem addServiceGroup (record : ServiceGroup) :
    program.Keeps { program with serviceGroups := program.serviceGroups.push record } :=
  { refl program with serviceGroups := (Arena.Keeps.refl _).push record }

theorem addUrl (record : Url) : program.Keeps { program with urls := program.urls.push record } :=
  { refl program with urls := (Arena.Keeps.refl _).push record }

theorem addParameter (record : Parameter) :
    program.Keeps { program with parameters := program.parameters.push record } :=
  { refl program with parameters := (Arena.Keeps.refl _).push record }

theorem addService (record : Service) :
    program.Keeps { program with services := program.services.push record } :=
  { refl program with services := (Arena.Keeps.refl _).push record }

end Additions

/-- Programs that agree before any lookup keep each other's records. -/
theorem of_unlinked_eq {before after : Program} (same : before.unlinked = after.unlinked) :
    Keeps before after where
  enumerations := by
    have equal := congrArg Program.enumerations same
    change before.enumerations = after.enumerations at equal
    rw [equal]
    exact .refl _
  interfaces := .of_map_eq (congrArg Program.interfaces same) fun _ => rfl
  classes := .of_map_eq (congrArg Program.classes same) fun _ => rfl
  properties := .of_map_eq (congrArg Program.properties same) fun _ => rfl
  endSignatures := .of_map_eq (congrArg Program.endSignatures same) fun _ => rfl
  associations := .of_map_eq (congrArg Program.associations same) fun _ => rfl
  associationEnds := .of_map_eq (congrArg Program.associationEnds same) fun _ => rfl
  projections := .of_map_eq (congrArg Program.projections same) fun _ => rfl
  serviceGroups := .of_map_eq (congrArg Program.serviceGroups same) fun _ => rfl
  urls := by
    have equal := congrArg Program.urls same
    change before.urls = after.urls at equal
    rw [equal]
    exact .refl _
  parameters := .of_map_eq (congrArg Program.parameters same) fun _ => rfl
  services := .of_map_eq (congrArg Program.services same) fun service => by
    have twice : service.unlinked.unlinked = service.unlinked := by
      simp [Service.unlinked, Clause.unlinked]
    rw [Service.written, Service.written, twice]

end Keeps
end Program
end DomainLang
