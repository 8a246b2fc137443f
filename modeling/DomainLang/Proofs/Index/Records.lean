import DomainLang.Proofs.Names

/-!
# Records and their contexts

Every record stands for a node of a unit, and its context says which. `Program.Extends` says
that a program has gained records and that none was moved, and there is one such lemma for
every way in which the analysis changes a program.
-/

namespace DomainLang

open Resolved

namespace Program

variable {before after : Program} {new : List (ContextKey × RecordIndex)}

/-- There is a record at an index of any kind. -/
def HoldsRecord (program : Program) : RecordIndex → Prop
  | .topLevel index => program.HoldsTopLevel index
  | .property index => program.properties.Holds index
  | .endSignature index => program.endSignatures.Holds index
  | .associationEnd index => program.associationEnds.Holds index
  | .url index => program.urls.Holds index
  | .parameter index => program.parameters.Holds index
  | .service index => program.services.Holds index

/-- The context of the node that a record stands for. -/
def contextOf (program : Program) : RecordIndex → ContextKey
  | .topLevel index => (program.header index).context
  | .property index => (program.properties.get index).context
  | .endSignature index => (program.endSignatures.get index).context
  | .associationEnd index => (program.associationEnds.get index).context
  | .url index => (program.urls.get index).context
  | .parameter index => (program.parameters.get index).context
  | .service index => (program.services.get index).context

/-- The second program has the records of the first at their contexts, and the new ones at
theirs. -/
structure Extends (before after : Program) (new : List (ContextKey × RecordIndex)) : Prop where
  holds_iff : ∀ record, after.HoldsRecord record ↔
    before.HoldsRecord record ∨ record ∈ new.map Prod.snd
  contextOf_eq : ∀ record, before.HoldsRecord record →
    after.contextOf record = before.contextOf record
  placed : ∀ entry ∈ new, after.contextOf entry.2 = entry.1

/-- Records that are kept keep their contexts. -/
theorem Keeps.contextOf_eq (keeps : before.Keeps after) (record : RecordIndex)
    (holds : before.HoldsRecord record) : after.contextOf record = before.contextOf record := by
  cases record with
  | topLevel index => exact congrArg Header.context (keeps.header_eq index holds)
  | property index =>
    have same := congrArg Property.context (keeps.properties index holds).2
    exact same
  | endSignature index =>
    have same := congrArg EndSignature.context (keeps.endSignatures index holds).2
    exact same
  | associationEnd index =>
    have same := congrArg AssociationEnd.context (keeps.associationEnds index holds).2
    exact same
  | url index => exact congrArg Url.context (keeps.urls index holds).2
  | parameter index =>
    have same := congrArg Parameter.context (keeps.parameters index holds).2
    exact same
  | service index =>
    have same := congrArg Service.context (keeps.services index holds).2
    exact same

theorem Keeps.holdsRecord (keeps : before.Keeps after) {record : RecordIndex}
    (holds : before.HoldsRecord record) : after.HoldsRecord record := by
  cases record with
  | topLevel index => exact keeps.holdsTopLevel holds
  | property index => exact (keeps.properties index holds).1
  | endSignature index => exact (keeps.endSignatures index holds).1
  | associationEnd index => exact (keeps.associationEnds index holds).1
  | url index => exact (keeps.urls index holds).1
  | parameter index => exact (keeps.parameters index holds).1
  | service index => exact (keeps.services index holds).1

namespace Extends

variable {program : Program}

/-- Outcomes of lookups do not matter. -/
theorem of_unlinked_eq (same : before.unlinked = after.unlinked) : before.Extends after [] where
  holds_iff record := by
    simp only [List.map_nil, List.not_mem_nil, or_false]
    exact ⟨(Keeps.of_unlinked_eq same.symm).holdsRecord, (Keeps.of_unlinked_eq same).holdsRecord⟩
  contextOf_eq := (Keeps.of_unlinked_eq same).contextOf_eq
  placed := by simp

/-- A change that neither adds records nor moves any. -/
theorem of_unmoved (held : ∀ record, after.HoldsRecord record ↔ before.HoldsRecord record)
    (unmoved : ∀ record, after.contextOf record = before.contextOf record) :
    before.Extends after [] where
  holds_iff := by simpa using held
  contextOf_eq record _ := unmoved record
  placed := by simp

/-- A change that keeps all records and adds some. -/
theorem of_keeps (keeps : before.Keeps after)
    (held : ∀ record, after.HoldsRecord record ↔
      before.HoldsRecord record ∨ record ∈ new.map Prod.snd)
    (placed : ∀ entry ∈ new, after.contextOf entry.2 = entry.1) : before.Extends after new :=
  ⟨held, keeps.contextOf_eq, placed⟩

/-- What two steps add is what each adds. -/
theorem trans {middle : Program} {more : List (ContextKey × RecordIndex)}
    (first : before.Extends middle new) (second : middle.Extends after more) :
    before.Extends after (more ++ new) where
  holds_iff record := by
    rw [second.holds_iff, first.holds_iff, List.map_append, List.mem_append]
    tauto
  contextOf_eq record holds := by
    rw [second.contextOf_eq record ((first.holds_iff record).mpr (.inl holds)),
      first.contextOf_eq record holds]
  placed entry member := by
    rcases List.mem_append.mp member with late | early
    · exact second.placed entry late
    · have held := (first.holds_iff entry.2).mpr (.inr (List.mem_map_of_mem early))
      rw [second.contextOf_eq entry.2 held, first.placed entry early]

section Additions

theorem addEnumeration (record : Enumeration) :
    program.Extends { program with enumerations := program.enumerations.push record }
      [(record.header.context, .topLevel (.enumeration program.enumerations.next))] := by
  apply of_keeps (.addEnumeration record)
  · intro other
    cases other <;> simp [HoldsRecord, holdsTopLevel_addEnumeration]
  · simp [contextOf, header]

theorem addInterface (record : Classifier) :
    program.Extends { program with interfaces := program.interfaces.push record }
      [(record.header.context, .topLevel (.interface program.interfaces.next))] := by
  apply of_keeps (.addInterface record)
  · intro other
    cases other <;> simp [HoldsRecord, holdsTopLevel_addInterface]
  · simp [contextOf, header]

theorem addClass (record : Resolved.Class) :
    program.Extends { program with classes := program.classes.push record }
      [(record.header.context, .topLevel (.klass program.classes.next))] := by
  apply of_keeps (.addClass record)
  · intro other
    cases other <;> simp [HoldsRecord, holdsTopLevel_addClass]
  · simp [contextOf, header]

/-- Two ends are added at once, each under its own context. -/
theorem addEnds (source target : AssociationEnd) :
    program.Extends
      { program with associationEnds := (program.associationEnds.push source).push target }
      [(source.context, .associationEnd program.associationEnds.next),
        (target.context, .associationEnd ⟨program.associationEnds.next.value + 1⟩)] := by
  have following : (program.associationEnds.push source).next =
      ⟨program.associationEnds.next.value + 1⟩ := by simp [Arena.next]
  apply of_keeps (.addEnds source target)
  · intro other
    cases other <;> simp [HoldsRecord, HoldsTopLevel, Arena.holds_push, following, or_assoc]
  · simp only [List.mem_cons, List.not_mem_nil, or_false, forall_eq_or_imp, forall_eq]
    constructor
    · have old : (program.associationEnds.push source).Holds program.associationEnds.next :=
        Arena.holds_push.mpr (.inr rfl)
      simp only [contextOf, Arena.get_push_of_holds old, Arena.get_push_next]
    · simp only [contextOf, ← following, Arena.get_push_next]

theorem addAssociation (record : Association) :
    program.Extends { program with associations := program.associations.push record }
      [(record.header.context, .topLevel (.association program.associations.next))] := by
  apply of_keeps (.addAssociation record)
  · intro other
    cases other <;> simp [HoldsRecord, holdsTopLevel_addAssociation]
  · simp [contextOf, header]

theorem addProjection (record : Projection) :
    program.Extends { program with projections := program.projections.push record }
      [(record.header.context, .topLevel (.projection program.projections.next))] := by
  apply of_keeps (.addProjection record)
  · intro other
    cases other <;> simp [HoldsRecord, holdsTopLevel_addProjection]
  · simp [contextOf, header]

theorem addServiceGroup (record : ServiceGroup) :
    program.Extends { program with serviceGroups := program.serviceGroups.push record }
      [(record.header.context, .topLevel (.serviceGroup program.serviceGroups.next))] := by
  apply of_keeps (.addServiceGroup record)
  · intro other
    cases other <;> simp [HoldsRecord, holdsTopLevel_addServiceGroup]
  · simp [contextOf, header]

theorem addUrl (record : Url) :
    program.Extends { program with urls := program.urls.push record }
      [(record.context, .url program.urls.next)] := by
  apply of_keeps (.addUrl record)
  · intro other
    cases other <;> simp [HoldsRecord, HoldsTopLevel, Arena.holds_push]
  · simp [contextOf]

theorem addParameter (record : Parameter) :
    program.Extends { program with parameters := program.parameters.push record }
      [(record.context, .parameter program.parameters.next)] := by
  apply of_keeps (.addParameter record)
  · intro other
    cases other <;> simp [HoldsRecord, HoldsTopLevel, Arena.holds_push]
  · simp [contextOf]

theorem addService (record : Service) :
    program.Extends { program with services := program.services.push record }
      [(record.context, .service program.services.next)] := by
  apply of_keeps (.addService record)
  · intro other
    cases other <;> simp [HoldsRecord, HoldsTopLevel, Arena.holds_push]
  · simp [contextOf]

theorem addProperty (record : Property) :
    program.Extends { program with properties := program.properties.push record }
      [(record.context, .property program.properties.next)] := by
  have keeps : program.Keeps { program with properties := program.properties.push record } :=
    { Keeps.refl program with properties := (Arena.Keeps.refl _).push record }
  apply of_keeps keeps
  · intro other
    cases other <;> simp [HoldsRecord, HoldsTopLevel, Arena.holds_push]
  · simp [contextOf]

theorem addEndSignature (record : EndSignature) :
    program.Extends { program with endSignatures := program.endSignatures.push record }
      [(record.context, .endSignature program.endSignatures.next)] := by
  have keeps : program.Keeps
      { program with endSignatures := program.endSignatures.push record } :=
    { Keeps.refl program with endSignatures := (Arena.Keeps.refl _).push record }
  apply of_keeps keeps
  · intro other
    cases other <;> simp [HoldsRecord, HoldsTopLevel, Arena.holds_push]
  · simp [contextOf]

end Additions

section Changes

theorem modifyUrl (index : UrlIndex) {change : Url → Url}
    (unmoved : ∀ url, (change url).context = url.context) :
    program.Extends { program with urls := program.urls.modify index change } [] := by
  apply of_unmoved
  · intro record
    cases record <;> simp [HoldsRecord, HoldsTopLevel]
  · intro record
    cases record with
    | url other => exact Arena.field_get_modify Url.context unmoved other
    | _ => rfl

theorem modifyService (index : ServiceIndex) {change : Service → Service}
    (unmoved : ∀ service, (change service).context = service.context) :
    program.Extends { program with services := program.services.modify index change } [] := by
  apply of_unmoved
  · intro record
    cases record <;> simp [HoldsRecord, HoldsTopLevel]
  · intro record
    cases record with
    | service other => exact Arena.field_get_modify Service.context unmoved other
    | _ => rfl

theorem modifyServiceGroup (index : ServiceGroupIndex) {change : ServiceGroup → ServiceGroup}
    (unmoved : ∀ group, (change group).header = group.header) :
    program.Extends
      { program with serviceGroups := program.serviceGroups.modify index change } [] := by
  apply of_unmoved
  · intro record
    cases record <;> simp [HoldsRecord, HoldsTopLevel]
  · intro record
    cases record with
    | topLevel other =>
      cases other with
      | serviceGroup other =>
        exact congrArg Header.context (Arena.field_get_modify ServiceGroup.header unmoved other)
      | _ => rfl
    | _ => rfl

/-- A change that leaves the header alone adds no record. -/
theorem modifyClassifier (index : ClassifierIndex) {change : Classifier → Classifier}
    (unmoved : ∀ classifier, (change classifier).header = classifier.header) :
    program.Extends (program.modifyClassifier index change) [] := by
  apply of_unmoved
  · intro record
    cases index <;> cases record <;>
      simp [HoldsRecord, HoldsTopLevel, Program.modifyClassifier]
  · intro record
    cases record with
    | topLevel other =>
      cases index with
      | interface index =>
        cases other with
        | interface other =>
          exact congrArg Header.context (Arena.field_get_modify Classifier.header unmoved other)
        | _ => rfl
      | klass index =>
        cases other with
        | klass other =>
          exact congrArg Header.context (Arena.field_get_modify
            (fun klass : Resolved.Class => klass.header) (fun klass => unmoved _) other)
        | _ => rfl
    | _ => cases index <;> rfl

end Changes

end Extends

/-- The entries are the records with their contexts, no more and no less. -/
def IndexedBy (program : Program) (entries : List (ContextKey × RecordIndex)) : Prop :=
  ∀ context record, (context, record) ∈ entries ↔
    program.HoldsRecord record ∧ program.contextOf record = context

/-- A blank program has no records. -/
theorem indexedBy_nil : ({} : Program).IndexedBy [] := by
  intro context record
  cases record with
  | topLevel index =>
    cases index <;> simp [HoldsRecord, HoldsTopLevel, Arena.Holds, Arena.size]
  | _ => simp [HoldsRecord, Arena.Holds, Arena.size]

/-- An index of a program, with entries for what is new, is one of the larger program. -/
theorem IndexedBy.extend {entries : List (ContextKey × RecordIndex)}
    (indexed : before.IndexedBy entries) (grows : before.Extends after new) :
    after.IndexedBy (new ++ entries) := by
  intro context record
  rw [List.mem_append, indexed, grows.holds_iff]
  constructor
  · rintro (isNew | ⟨holds, rfl⟩)
    · exact ⟨.inr (List.mem_map_of_mem isNew), grows.placed _ isNew⟩
    · exact ⟨.inl holds, grows.contextOf_eq record holds⟩
  · rintro ⟨old | isNew, rfl⟩
    · exact .inr ⟨old, (grows.contextOf_eq record old).symm⟩
    · obtain ⟨⟨place, _⟩, member, rfl⟩ := List.mem_map.mp isNew
      rw [grows.placed _ member]
      exact .inl member

end Program

end DomainLang
