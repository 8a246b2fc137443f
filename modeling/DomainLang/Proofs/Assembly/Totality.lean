import DomainLang.Proofs.Assembly.Allocation
import DomainLang.Proofs.Soundness

/-!
# Sound programs are assembled

Assembly meets a fault only at a name that was not resolved or at a record without an id. In a
sound program there is neither, so that every step of the assembly succeeds.
-/

namespace DomainLang

open Resolved

/-- A computation that does not end in a fault. -/
def Succeeds {α : Type} (result : Except Fault α) : Prop :=
  ∃ value, result = .ok value

namespace Succeeds

variable {α β : Type}

theorem pure (value : α) : Succeeds (pure value) :=
  ⟨value, rfl⟩

/-- One step after another succeeds where each does. -/
theorem bind {result : Except Fault α} {next : α → Except Fault β} (first : Succeeds result)
    (continues : ∀ value, result = .ok value → Succeeds (next value)) :
    Succeeds (result >>= next) := by
  obtain ⟨value, rfl⟩ := first
  exact continues value rfl

/-- A list is made where each of its items is. -/
theorem mapM {items : List α} {make : α → Except Fault β}
    (each : ∀ item ∈ items, Succeeds (make item)) : Succeeds (items.mapM make) := by
  induction items with
  | nil => exact ⟨[], rfl⟩
  | cons item items ih =>
    rw [List.mapM_cons]
    refine .bind (each item List.mem_cons_self) fun _ _ => ?_
    refine .bind (ih fun other member => ?_) fun _ _ => .pure _
    exact each other (List.mem_cons_of_mem _ member)

/-- What was resolved is no fault. -/
theorem bind_resolved {resolution : Resolution α} {value : α} {what : String}
    {next : α → Except Fault β} (found : resolution = .resolved value)
    (continues : Succeeds (next value)) :
    Succeeds (Assembly.resolved resolution what >>= next) := by
  rw [found]
  exact continues

/-- What was filled in is no fault. -/
theorem bind_filled {filled : Option α} {value : α} {what : String} {next : α → Except Fault β}
    (found : filled = some value) (continues : Succeeds (next value)) :
    Succeeds (Assembly.filled filled what >>= next) := by
  rw [found]
  exact continues

end Succeeds

namespace Assembly

open Allocation (idOf idsOf)

variable {program : Program} {allocation : Allocation}

section Ids

variable {kind : RecordKind} {α : Type} [Inhabited α] {arena : Arena kind α}
  {order : List (Index kind)}

/-- A record that was numbered has an id. -/
theorem succeeds_idOf (enumerates : arena.Enumerates order) {index : Index kind}
    (holds : arena.Holds index) : Succeeds (idOf order index) :=
  ⟨_, Allocation.idOf_eq_ok.mpr ⟨enumerates.mem_iff.mpr holds, rfl⟩⟩

theorem succeeds_idsOf (enumerates : arena.Enumerates order) {indices : List (Index kind)}
    (holds : ∀ index ∈ indices, arena.Holds index) : Succeeds (idsOf order indices) :=
  .mapM fun index member => succeeds_idOf enumerates (holds index member)

end Ids

variable (covers : allocation.Covers program)
include covers

theorem succeeds_classifierId {classifier : ClassifierIndex}
    (holds : program.HoldsClassifier classifier) :
    Succeeds (allocation.classifierId classifier) := by
  cases classifier with
  | interface index => exact .bind (succeeds_idOf covers.interfaces holds) fun _ _ => .pure _
  | klass index => exact .bind (succeeds_idOf covers.classes holds) fun _ _ => .pure _

section Criteria

variable {this : ClassifierIndex} {parameters : List ParameterIndex}

/-- The ends along a walk have ids. -/
theorem succeeds_hops {start last : ClassifierIndex} {hops : List Hop}
    (walks : program.Walks start hops last) : Succeeds (hops.mapM (hop allocation)) := by
  induction walks with
  | here _ => exact ⟨[], rfl⟩
  | step found holds _ _ _ _ _ ih =>
    rw [List.mapM_cons]
    refine .bind ?_ fun _ _ => .bind ih fun _ _ => .pure _
    exact .bind_resolved found (succeeds_idOf covers.associationEnds holds)

/-- A typed path is assembled. -/
theorem succeeds_memberPath {path : MemberPath} {start last : ClassifierIndex}
    {property : PropertyIndex} (typed : program.PathTyped this path start last property) :
    Succeeds (memberPath allocation path) := by
  refine .bind_resolved typed.classifier ?_
  refine .bind (succeeds_hops covers typed.walks) fun _ _ => ?_
  refine .bind_resolved typed.reaches ?_
  refine .bind (succeeds_classifierId covers typed.holds) fun _ _ => ?_
  exact .bind (succeeds_idOf covers.properties typed.held) fun _ _ => .pure _

/-- A typed value is assembled, whichever kind it is. -/
theorem succeeds_value {operand : Value} (typed : program.ValueTyped this parameters operand) :
    Succeeds (value allocation operand) := by
  cases operand with
  | member path =>
    obtain ⟨_, _, _, typedPath⟩ := typed
    simp only [value]
    split
    · exact .bind (succeeds_memberPath covers typedPath) fun _ _ => .pure _
    · exact .bind (succeeds_memberPath covers typedPath) fun _ _ => .pure _
  | «variable» name parameter =>
    obtain ⟨_, _, found, holds, -⟩ := typed
    refine .bind_resolved found ?_
    exact .bind (succeeds_idOf covers.parameters holds) fun _ _ => .pure _
  | literal _ _ | literals _ _ | user _ => exact .pure _

/-- A typed criteria is assembled, by its constructors. -/
theorem succeeds_criteria {condition : Criteria}
    (typed : program.CriteriaTyped this parameters condition) :
    Succeeds (criteria allocation condition) := by
  induction condition with
  | all _ => exact .pure _
  | and left right leftSucceeds rightSucceeds | or left right leftSucceeds rightSucceeds =>
    exact .bind (leftSucceeds typed.1) fun _ _ => .bind (rightSucceeds typed.2) fun _ _ => .pure _
  | operator source _ target _ =>
    exact .bind (succeeds_value covers typed.1) fun _ _ =>
      .bind (succeeds_value covers typed.2) fun _ _ => .pure _
  | edgePoint path _ =>
    obtain ⟨-, _, _, typedPath⟩ := typed
    exact .bind (succeeds_memberPath covers typedPath) fun _ _ => .pure _

theorem succeeds_orderBy {ordering : Option OrderBy}
    (typed : ∀ written ∈ ordering, ∃ this, program.OrderByTyped this written) :
    Succeeds (orderBy allocation ordering) := by
  cases ordering with
  | none => exact .pure _
  | some written =>
    refine .bind (.mapM fun member isMember => ?_) fun _ _ => .pure _
    obtain ⟨_, typedOrdering⟩ := typed written rfl
    obtain ⟨-, -, _, _, typedPath⟩ := typedOrdering member isMember
    exact .bind (succeeds_memberPath covers typedPath) fun _ _ => .pure _

end Criteria

section Projections

/-- A reference that leads somewhere is assembled. -/
theorem succeeds_reference {current target : ClassifierIndex} {name : String}
    {found : Resolution Reference} {index : Reference}
    (leads : program.LeadsTo current name found index target) :
    Succeeds (reference allocation name found) := by
  refine .bind_resolved leads.found ?_
  have typed := leads.typed
  cases index with
  | associationEnd _ =>
    exact .bind (succeeds_idOf covers.associationEnds typed.1) fun _ _ => .pure _
  | signature _ => exact .bind (succeeds_idOf covers.endSignatures typed.1) fun _ _ => .pure _

omit covers

mutual

/-- A well typed element of a projection is assembled. -/
theorem succeeds_projectionElement (covers : allocation.Covers program)
    (current : ClassifierIndex) (element : ProjectionElement)
    (typed : program.ElementTyped current element) :
    Succeeds (projectionElement allocation element) := by
  cases element with
  | property name header found =>
    simp only [Program.ElementTyped] at typed
    obtain ⟨_, resolved, holds, -⟩ := typed
    rw [projectionElement]
    refine .bind_resolved resolved ?_
    exact .bind (succeeds_idOf covers.properties holds) fun _ _ => .pure _
  | reference name found children =>
    simp only [Program.ElementTyped] at typed
    obtain ⟨_, target, leads, below⟩ := typed
    rw [projectionElement]
    refine .bind (succeeds_reference covers leads) fun _ _ => ?_
    exact .bind (succeeds_projectionElements covers target children below) fun _ _ => .pure _
  | projection name found projectionName projection =>
    simp only [Program.ElementTyped] at typed
    obtain ⟨_, _, _, _, leads, resolved, holds, -⟩ := typed
    rw [projectionElement]
    refine .bind_resolved resolved ?_
    refine .bind (succeeds_reference covers leads) fun _ _ => ?_
    exact .bind (succeeds_idOf covers.projections holds) fun _ _ => .pure _

/-- Well typed elements of a projection are assembled, at every level. -/
theorem succeeds_projectionElements (covers : allocation.Covers program)
    (current : ClassifierIndex) (elements : List ProjectionElement)
    (typed : program.ElementsTyped current elements) :
    Succeeds (projectionElements allocation elements) := by
  cases elements with
  | nil => exact .pure _
  | cons element rest =>
    simp only [Program.ElementsTyped] at typed
    rw [projectionElements]
    refine .bind (succeeds_projectionElement covers current element typed.1) fun _ _ => ?_
    exact .bind (succeeds_projectionElements covers current rest typed.2) fun _ _ => .pure _

end

end Projections

section Records

/-- A type that is primitive, or whose enumeration was found, is assembled. -/
theorem succeeds_dataType {type : Syntax.PropertyType}
    {found : Option (Resolution EnumerationIndex)} (typed : program.TypeFound type found) :
    Succeeds (dataType allocation type found) := by
  cases type with
  | primitive _ => exact .pure _
  | enumeration name =>
    obtain ⟨enumeration, rfl, holds⟩ := typed name rfl
    refine .bind_resolved rfl ?_
    exact .bind (succeeds_idOf covers.enumerations holds) fun _ _ => .pure _

/-- Interfaces that were found have ids. -/
theorem succeeds_interfaces {record : Classifier}
    (found : ∀ resolution ∈ record.interfaces, resolution.Finds program.interfaces.Holds) :
    Succeeds (interfaces allocation record) := by
  refine .mapM fun pair member => ?_
  obtain ⟨index, resolved, holds⟩ := found pair.1 (List.of_mem_zip member).1
  exact .bind_resolved resolved (succeeds_idOf covers.interfaces holds)

/-- The search for a marked end only meets ends that the class lists. -/
theorem succeeds_markedEnd (listed : program.EndsListed) (index : ClassIndex)
    (modifier : Modifier) :
    Succeeds (markedEnd program allocation index modifier) := by
  unfold markedEnd
  cases marked : (program.allAssociationEnds index).find? fun associationEnd =>
      (program.associationEnds.get associationEnd).has modifier with
  | none => exact .pure _
  | some associationEnd =>
    have holds := listed.holds_of_mem_allAssociationEnds (List.mem_of_find?_eq_some marked)
    exact .bind (succeeds_idOf covers.associationEnds holds) fun _ _ => .pure _

variable (sound : program.Sound)
include sound

theorem succeeds_interface {index : InterfaceIndex} (holds : program.interfaces.Holds index) :
    Succeeds (interface program allocation index) := by
  have held : program.HoldsClassifier (.interface index) := holds
  refine .bind (succeeds_interfaces covers (sound.interfaces (.interface index) holds))
    fun _ _ => ?_
  refine .bind (succeeds_idsOf covers.properties fun property member => ?_) fun _ _ => ?_
  · exact ((sound.coherent.properties.mem_listed held id).mp member).1
  refine .bind (succeeds_idsOf covers.properties fun property member => ?_) fun _ _ => ?_
  · exact sound.coherent.holds_of_mem_allProperties member
  refine .bind (succeeds_idsOf covers.endSignatures fun signature member => ?_) fun _ _ => .pure _
  exact ((sound.coherent.endSignatures.mem_listed held id).mp member).1

/-- The superclass of a class in the program was found, if it names one. -/
theorem succeeds_superclass {index : ClassIndex} (holds : program.classes.Holds index) :
    Succeeds (superclass allocation (program.classes.get index)) := by
  unfold superclass
  split
  · exact .pure _
  · next resolution named =>
    obtain ⟨parent, found, heldParent⟩ := sound.superclasses index holds resolution named
    refine .bind_resolved found ?_
    exact .bind (succeeds_idOf covers.classes heldParent) fun _ _ => .pure _

/-- A class of the program is assembled. -/
theorem succeeds_klass {index : ClassIndex} (holds : program.classes.Holds index) :
    Succeeds (klass program allocation index) := by
  have held : program.HoldsClassifier (.klass index) := holds
  refine .bind (succeeds_superclass covers sound holds) fun _ _ => ?_
  refine .bind (succeeds_interfaces covers (sound.interfaces (.klass index) holds)) fun _ _ => ?_
  refine .bind (succeeds_idsOf covers.properties fun property member => ?_) fun _ _ => ?_
  · exact ((sound.coherent.properties.mem_listed held id).mp member).1
  refine .bind (succeeds_idsOf covers.properties fun property member => ?_) fun _ _ => ?_
  · exact sound.coherent.holds_of_mem_allProperties member
  refine .bind (succeeds_idsOf covers.endSignatures fun signature member => ?_) fun _ _ => ?_
  · exact ((sound.coherent.endSignatures.mem_listed held id).mp member).1
  refine .bind (succeeds_idsOf covers.associationEnds fun associationEnd member => ?_)
    fun _ _ => ?_
  · exact (sound.endsListed.of_mem_associationEnds member).1
  refine .bind (succeeds_markedEnd covers sound.endsListed index .version) fun _ _ => ?_
  exact .bind (succeeds_markedEnd covers sound.endsListed index .versioned) fun _ _ => .pure _

theorem succeeds_property {index : PropertyIndex} (holds : program.properties.Holds index) :
    Succeeds (property program allocation index) := by
  refine .bind (succeeds_classifierId covers (sound.coherent.properties.held_owner index holds))
    fun _ _ => ?_
  exact .bind (succeeds_dataType covers (sound.propertyTypes index holds)) fun _ _ => .pure _

theorem succeeds_endSignature {index : EndSignatureIndex}
    (holds : program.endSignatures.Holds index) :
    Succeeds (endSignature program allocation index) := by
  obtain ⟨target, found, heldTarget⟩ := sound.signatureTargets index holds
  refine .bind_resolved (congrArg (Option.getD · .notFound) found) ?_
  refine .bind (succeeds_classifierId covers (sound.coherent.endSignatures.held_owner index holds))
    fun _ _ => ?_
  exact .bind (succeeds_classifierId covers heldTarget) fun _ _ => .pure _

/-- An association of the program is assembled, with its foreign keys. -/
theorem succeeds_association {index : AssociationIndex}
    (holds : program.associations.Holds index) :
    Succeeds (association program allocation index) := by
  obtain ⟨relationship, _, filled, -, typed⟩ := sound.relationships index holds
  refine .bind_filled filled ?_
  refine .bind (succeeds_idOf covers.associationEnds
    (sound.coherent.ends.holds_source holds)) fun _ _ => ?_
  refine .bind (succeeds_idOf covers.associationEnds
    (sound.coherent.ends.holds_target holds)) fun _ _ => ?_
  refine .bind (succeeds_criteria covers typed) fun _ _ => ?_
  refine .bind (.mapM fun key member => ?_) fun _ _ => .pure _
  obtain ⟨heldEnd, heldForeign, heldKey⟩ := sound.foreignKeys index holds key member
  refine .bind (succeeds_idOf covers.associationEnds heldEnd) fun _ _ => ?_
  refine .bind (succeeds_idOf covers.properties heldForeign) fun _ _ => ?_
  exact .bind (succeeds_idOf covers.properties heldKey) fun _ _ => .pure _

/-- An end of the program is assembled, with its ordering. -/
theorem succeeds_associationEnd {index : AssociationEndIndex}
    (holds : program.associationEnds.Holds index) :
    Succeeds (associationEnd program allocation index) := by
  obtain ⟨target, found, heldTarget⟩ := sound.endTargets index holds
  obtain ⟨owner, owned, -, heldOwner⟩ := sound.endOwners index holds
  refine .bind_resolved found ?_
  refine .bind_filled owned ?_
  refine .bind (succeeds_idOf covers.associations
    (sound.coherent.ends.holds_association holds)) fun _ _ => ?_
  refine .bind (succeeds_idOf covers.classes heldOwner) fun _ _ => ?_
  refine .bind (succeeds_idOf covers.classes heldTarget) fun _ _ => ?_
  refine .bind ?_ fun _ _ => ?_
  · apply succeeds_orderBy covers
    intro ordering written
    obtain ⟨-, this, -, typed⟩ := sound.endOrderings index holds ordering written
    exact ⟨this, typed⟩
  exact .bind (succeeds_idOf covers.associationEnds
    (sound.coherent.ends.holds_opposite holds)) fun _ _ => .pure _

theorem succeeds_projection {index : ProjectionIndex} (holds : program.projections.Holds index) :
    Succeeds (projection program allocation index) := by
  obtain ⟨classifier, found, held, typed⟩ := sound.projections index holds
  refine .bind_resolved (congrArg (Option.getD · .notFound) found) ?_
  refine .bind (succeeds_classifierId covers held) fun _ _ => ?_
  exact .bind (succeeds_projectionElements covers classifier _ typed) fun _ _ => .pure _

theorem succeeds_serviceGroup {index : ServiceGroupIndex}
    (holds : program.serviceGroups.Holds index) :
    Succeeds (serviceGroup program allocation index) := by
  obtain ⟨klass, found, held⟩ := sound.groups index holds
  refine .bind_resolved (congrArg (Option.getD · .notFound) found) ?_
  refine .bind (succeeds_idOf covers.classes held) fun _ _ => ?_
  refine .bind (succeeds_idsOf covers.urls fun url member => ?_) fun _ _ => .pure _
  exact ((sound.coherent.urls.mem_listed holds (by simp)).mp member).1

/-- A url of the program is assembled, with its parameters and services. -/
theorem succeeds_url {index : UrlIndex} (holds : program.urls.Holds index) :
    Succeeds (url program allocation index) := by
  have held {parameter : ParameterIndex}
      (member : parameter ∈ (program.urls.get index).parameters) :
      program.parameters.Holds parameter :=
    ((sound.coherent.parameters.mem_listed holds (by simp)).mp member).1
  refine .bind (.mapM fun segment member => ?_) fun _ _ => ?_
  · cases segment with
    | constant _ => exact .pure _
    | parameter parameter =>
      refine .bind (succeeds_idOf covers.parameters (held ?_)) fun _ _ => .pure _
      exact List.mem_append_left _ (List.mem_filterMap.mpr ⟨_, member, rfl⟩)
  refine .bind (succeeds_idOf covers.serviceGroups
    (sound.coherent.urls.held_owner index holds)) fun _ _ => ?_
  refine .bind (succeeds_idsOf covers.parameters fun parameter member => ?_) fun _ _ => ?_
  · exact held (List.mem_append_right _ member)
  refine .bind (succeeds_idsOf covers.services fun service member => ?_) fun _ _ => .pure _
  exact ((sound.coherent.services.mem_listed holds (by simp)).mp member).1

theorem succeeds_parameter {index : ParameterIndex} (holds : program.parameters.Holds index) :
    Succeeds (parameter program allocation index) := by
  refine .bind (succeeds_idOf covers.urls (sound.coherent.parameters.held_owner index holds))
    fun _ _ => ?_
  exact .bind (succeeds_dataType covers (sound.parameterTypes index holds)) fun _ _ => .pure _

/-- A service of the program is assembled, with its clauses. -/
theorem succeeds_service {index : ServiceIndex} (holds : program.services.Holds index) :
    Succeeds (service program allocation index) := by
  refine .bind (.mapM fun record member => ?_) fun _ _ => ?_
  · obtain ⟨condition, _, filled, -, typed⟩ := sound.clauses index holds record member
    refine .bind_filled filled ?_
    exact .bind (succeeds_criteria covers typed) fun _ _ => .pure _
  refine .bind ?_ fun _ _ => ?_
  · unfold serviceProjection
    split
    · next name resolution _ named =>
      obtain ⟨projection, _, _, found, held, -⟩ :=
        sound.serviceProjections index holds resolution named
      refine .bind_resolved found ?_
      exact .bind (succeeds_idOf covers.projections held) fun _ _ => .pure _
    · exact .pure _
  refine .bind (succeeds_idOf covers.urls (sound.coherent.services.held_owner index holds))
    fun _ _ => ?_
  refine .bind ?_ fun _ _ => .pure _
  apply succeeds_orderBy covers
  intro ordering written
  obtain ⟨klass, -, typed⟩ := sound.serviceOrderings index holds ordering written
  exact ⟨.klass klass, typed⟩

end Records

omit covers in
/-- Every sound program is assembled. -/
theorem succeeds_model (sound : program.Sound) : Succeeds (model program) := by
  have covers := Allocation.covers_ofProgram sound.coherent
  refine .bind ?_ fun _ _ => .pure _
  refine .bind (.mapM fun index member =>
    succeeds_interface covers sound (covers.interfaces.mem_iff.mp member)) fun _ _ => ?_
  refine .bind (.mapM fun index member =>
    succeeds_klass covers sound (covers.classes.mem_iff.mp member)) fun _ _ => ?_
  refine .bind (.mapM fun index member =>
    succeeds_property covers sound (covers.properties.mem_iff.mp member)) fun _ _ => ?_
  refine .bind (.mapM fun index member =>
    succeeds_endSignature covers sound (covers.endSignatures.mem_iff.mp member)) fun _ _ => ?_
  refine .bind (.mapM fun index member =>
    succeeds_association covers sound (covers.associations.mem_iff.mp member)) fun _ _ => ?_
  refine .bind (.mapM fun index member =>
    succeeds_associationEnd covers sound (covers.associationEnds.mem_iff.mp member)) fun _ _ => ?_
  refine .bind (.mapM fun index member =>
    succeeds_projection covers sound (covers.projections.mem_iff.mp member)) fun _ _ => ?_
  refine .bind (.mapM fun index member =>
    succeeds_serviceGroup covers sound (covers.serviceGroups.mem_iff.mp member)) fun _ _ => ?_
  refine .bind (.mapM fun index member =>
    succeeds_url covers sound (covers.urls.mem_iff.mp member)) fun _ _ => ?_
  refine .bind (.mapM fun index member =>
    succeeds_parameter covers sound (covers.parameters.mem_iff.mp member)) fun _ _ => ?_
  exact .bind (.mapM fun index member =>
    succeeds_service covers sound (covers.services.mem_iff.mp member)) fun _ _ => .pure _

end Assembly
end DomainLang
