import DomainLang.Proofs.Inference.Clauses
import DomainLang.Proofs.Inference.Temporal

/-!
# Links between declarations

Superclasses, interfaces, types of members and the classes of association ends are looked up
once, before anything is inferred. `Program.LinkedDeclarations` says that what is stored is
what the lookup of the written name gives. The inferences keep it: an inferred property has
a primitive type, so nothing is left to look up.
-/

namespace DomainLang

open Resolved

namespace Program

/-- What is stored about superclasses, interfaces, members and ends is what lookups give. -/
structure LinkedDeclarations (registry : Registry) (program : Program) : Prop where
  interfaces : ∀ index, program.interfaces.Holds index →
    (program.interfaces.get index).interfaces =
      registry.findInterfaces (program.interfaces.get index).declaredInterfaces
  classInterfaces : ∀ index, program.classes.Holds index →
    (program.classes.get index).interfaces =
      registry.findInterfaces (program.classes.get index).declaredInterfaces
  superclasses : ∀ index, program.classes.Holds index →
    (program.classes.get index).superclass =
      (program.classes.get index).declaredSuperclass.map fun name =>
        registry.classes.find name.name
  properties : ∀ index, program.properties.Holds index →
    (program.properties.get index).enumeration =
      registry.findTypeEnumeration (program.properties.get index).declaration.type
  endSignatures : ∀ index, program.endSignatures.Holds index →
    (program.endSignatures.get index).target =
      some (registry.findClassifier (program.endSignatures.get index).declaration.target.name)
  endTargets : ∀ index, program.associationEnds.Holds index →
    (program.associationEnds.get index).target =
      registry.classes.find (program.associationEnds.get index).declaration.target.name
  /-- An end belongs to the class that the opposite end leads to. -/
  endOwners : ∀ index, program.associationEnds.Holds index →
    (program.associationEnds.get index).owner =
      (program.associationEnds.get (program.associationEnds.get index).opposite).target.value?
  classEnds : ∀ index, program.classes.Holds index →
    (program.classes.get index).associationEnds =
      program.associationEnds.select fun associationEnd => associationEnd.owner = some index

/-- Every interface that is written is looked up. -/
theorem LinkedDeclarations.interfaces_eq {registry : Registry} {program : Program}
    (linked : program.LinkedDeclarations registry) {classifier : ClassifierIndex}
    (holds : program.HoldsClassifier classifier) :
    (program.classifier classifier).interfaces =
      registry.findInterfaces (program.classifier classifier).declaredInterfaces := by
  cases classifier with
  | interface index => exact linked.interfaces index holds
  | klass index => exact linked.classInterfaces index holds

theorem unlinked_linkHierarchy (program : Program) (registry : Registry) :
    (program.linkHierarchy registry).unlinked = program.unlinked := by
  simp only [linkHierarchy, unlinked, mk.injEq, true_and, and_true]
  exact ⟨Arena.map_map_of_unseen fun _ => rfl, Arena.map_map_of_unseen fun _ => rfl,
    Arena.map_map_of_unseen fun _ => rfl, Arena.map_map_of_unseen fun _ => rfl⟩

theorem unlinked_linkAssociations (program : Program) (registry : Registry) :
    (program.linkAssociations registry).unlinked = program.unlinked := by
  simp only [linkAssociations, unlinked, mk.injEq, true_and, and_true]
  refine ⟨Arena.map_mapWithIndex_of_unseen fun _ _ => rfl, ?_⟩
  have owners : (program.endsWithOwners registry).map AssociationEnd.unlinked =
      (program.endsWithTargets registry).map AssociationEnd.unlinked :=
    Arena.map_map_of_unseen fun _ => rfl
  exact owners.trans (Arena.map_map_of_unseen fun _ => rfl)

/-- Linking stores what lookups give. -/
theorem linkedDeclarations_link (program : Program) (registry : Registry)
    (none : ∀ klass, (program.classes.get klass).associationEnds = []) :
    ((program.linkHierarchy registry).linkAssociations registry).LinkedDeclarations registry := by
  have classAt (index : ClassIndex) (holds : program.classes.Holds index) :=
    Arena.get_map holds fun klass : Resolved.Class =>
      { klass with
        interfaces := registry.findInterfaces klass.declaredInterfaces
        superclass := klass.declaredSuperclass.map fun name => registry.classes.find name.name }
  constructor
  case interfaces =>
    intro index holds
    have held := Arena.holds_map.mp holds
    simp only [linkAssociations, linkHierarchy, Arena.get_map held]
  case classInterfaces =>
    intro index holds
    have linked := Arena.holds_mapWithIndex.mp holds
    have held := Arena.holds_map.mp linked
    simp only [linkAssociations, linkHierarchy] at linked ⊢
    rw [Arena.get_mapWithIndex linked, classAt index held]
  case superclasses =>
    intro index holds
    have linked := Arena.holds_mapWithIndex.mp holds
    have held := Arena.holds_map.mp linked
    simp only [linkAssociations, linkHierarchy] at linked ⊢
    rw [Arena.get_mapWithIndex linked, classAt index held]
  case properties =>
    intro index holds
    have held := Arena.holds_map.mp holds
    simp only [linkAssociations, linkHierarchy, Arena.get_map held]
  case endSignatures =>
    intro index holds
    have held := Arena.holds_map.mp holds
    simp only [linkAssociations, linkHierarchy, Arena.get_map held]
  case endTargets =>
    intro index holds
    have targeted := Arena.holds_map.mp holds
    have held := Arena.holds_map.mp targeted
    simp only [linkAssociations, endsWithOwners, Arena.get_map targeted]
    simp only [endsWithTargets, Arena.get_map held]
  case endOwners =>
    intro index holds
    have targeted := Arena.holds_map.mp holds
    have same (other : AssociationEndIndex) :
        (((program.linkHierarchy registry).endsWithOwners registry).get other).target =
          (((program.linkHierarchy registry).endsWithTargets registry).get other).target := by
      refine Arena.field_get_map AssociationEnd.target ?_ other
      exact fun _ => rfl
    simp only [linkAssociations, same]
    simp only [endsWithOwners, Arena.get_map targeted]
  case classEnds =>
    intro index holds
    have linked := Arena.holds_mapWithIndex.mp holds
    have held := Arena.holds_map.mp linked
    simp only [linkAssociations, linkHierarchy] at linked ⊢
    rw [Arena.get_mapWithIndex linked, classAt index held]
    simp only [none index, List.nil_append]
    rfl

namespace LinkedDeclarations

variable {registry : Registry} {before after : Program}

/-- Only classifiers, members and ends matter, and of ends not their orderings. -/
theorem congr (linked : before.LinkedDeclarations registry)
    (interfaces : after.interfaces = before.interfaces) (classes : after.classes = before.classes)
    (properties : after.properties = before.properties)
    (endSignatures : after.endSignatures = before.endSignatures)
    (ends : ∃ orderings : AssociationEnd → Option OrderBy,
      after.associationEnds = before.associationEnds.map fun associationEnd =>
        { associationEnd with orderBy := orderings associationEnd }) :
    after.LinkedDeclarations registry := by
  obtain ⟨orderings, ends⟩ := ends
  let change (associationEnd : AssociationEnd) : AssociationEnd :=
    { associationEnd with orderBy := orderings associationEnd }
  have ofEnd {β : Type} (field : AssociationEnd → β)
      (unseen : ∀ associationEnd, field (change associationEnd) = field associationEnd)
      (index : AssociationEndIndex) :
      field (after.associationEnds.get index) = field (before.associationEnds.get index) := by
    rw [ends]
    exact Arena.field_get_map field unseen index
  have held {index : AssociationEndIndex} (holds : after.associationEnds.Holds index) :
      before.associationEnds.Holds index := by
    rw [ends] at holds
    exact Arena.holds_map.mp holds
  constructor
  case interfaces => rw [interfaces]; exact linked.interfaces
  case classInterfaces => rw [classes]; exact linked.classInterfaces
  case superclasses => rw [classes]; exact linked.superclasses
  case properties => rw [properties]; exact linked.properties
  case endSignatures => rw [endSignatures]; exact linked.endSignatures
  case endTargets =>
    intro index holds
    rw [ofEnd AssociationEnd.target (fun _ => rfl),
      ofEnd AssociationEnd.declaration (fun _ => rfl)]
    exact linked.endTargets index (held holds)
  case endOwners =>
    intro index holds
    rw [ofEnd AssociationEnd.owner (fun _ => rfl), ofEnd AssociationEnd.opposite (fun _ => rfl),
      ofEnd AssociationEnd.target (fun _ => rfl)]
    exact linked.endOwners index (held holds)
  case classEnds =>
    intro index holds
    rw [classes] at holds ⊢
    rw [linked.classEnds index holds, ends]
    symm
    apply Arena.select_map
    exact fun _ => rfl

end LinkedDeclarations
end Program

/-- There is nothing to look up for a property that was inferred. -/
theorem enumeration_of_fragmentProperties {program : Program} {fragment : CompilationUnit}
    (made : program.TemporalFragment fragment) (registry : Registry) {property : Property}
    (member : property ∈ fragment.fragmentProperties) :
    property.enumeration = registry.findTypeEnumeration property.declaration.type := by
  obtain ⟨_, _, isBody, -, -, each, -⟩ := made
  obtain ⟨owner, members, declaration, body, among, rfl⟩ :=
    fragment.exists_of_mem_fragmentProperties member
  cases body.symm.trans isBody
  obtain ⟨family, -, part, stripped⟩ := each _ among
  have type := congrArg Syntax.Property.type (Syntax.Member.property.inj stripped)
  cases primitive : declaration.type with
  | primitive _ => rfl
  | enumeration name =>
    cases part <;> simp [Syntax.Property.stripped, primitive, Syntax.PropertyType.stripped,
      Temporal.propertyFor, Syntax.Property.bare] at type

namespace Workspace

variable {before after : Workspace}

theorem InfersProperties.linkedDeclarations {fragments : List CompilationUnit}
    (infers : before.InfersProperties fragments after)
    (linked : before.program.LinkedDeclarations before.registry) :
    after.program.LinkedDeclarations after.registry := by
  have adds := infers.adds
  have sameInterfaces := adds.classifiers.interfaces.symm
  have sameClasses := adds.classifiers.classes.symm
  have ofInterface {β : Type} := @Arena.field_get_of_map_eq _ _ _ _ _ _ β sameInterfaces
  have ofClass {β : Type} := @Arena.field_get_of_map_eq _ _ _ _ _ _ β sameClasses
  have signatures : after.program.endSignatures = before.program.endSignatures := by
    have records := adds.endSignatures_eq
    rw [List.append_nil] at records
    exact congrArg Arena.mk records
  have ends : after.program.associationEnds = before.program.associationEnds := by
    rw [adds.others]
  rw [adds.registry]
  constructor
  case interfaces =>
    intro index holds
    rw [ofInterface Classifier.interfaces (fun _ => rfl),
      ofInterface Classifier.declaredInterfaces (fun _ => rfl)]
    exact linked.interfaces index ((Arena.holds_iff_of_map_eq sameInterfaces).mp holds)
  case classInterfaces =>
    intro index holds
    rw [ofClass (fun klass => klass.interfaces) (fun _ => rfl),
      ofClass (fun klass => klass.declaredInterfaces) (fun _ => rfl)]
    exact linked.classInterfaces index ((Arena.holds_iff_of_map_eq sameClasses).mp holds)
  case superclasses =>
    intro index holds
    rw [ofClass Class.superclass (fun _ => rfl), ofClass Class.declaredSuperclass (fun _ => rfl)]
    exact linked.superclasses index ((Arena.holds_iff_of_map_eq sameClasses).mp holds)
  case properties =>
    intro index holds
    rcases Arena.get_cases_of_append adds.properties_eq holds with ⟨old, same⟩ | new
    · rw [same]
      exact linked.properties index old
    · obtain ⟨fragment, member, property⟩ := List.mem_flatMap.mp new
      exact enumeration_of_fragmentProperties (infers.each fragment member) _ property
  case endSignatures =>
    rw [signatures]
    exact linked.endSignatures
  case endTargets =>
    rw [ends]
    exact linked.endTargets
  case endOwners =>
    rw [ends]
    exact linked.endOwners
  case classEnds =>
    intro index holds
    rw [ofClass Class.associationEnds (fun _ => rfl), ends]
    exact linked.classEnds index ((Arena.holds_iff_of_map_eq sameClasses).mp holds)

theorem InfersClauses.linkedDeclarations (infers : before.InfersClauses after)
    (linked : before.program.LinkedDeclarations before.registry) :
    after.program.LinkedDeclarations after.registry := by
  have registry : after.registry = before.registry := by rw [infers.surroundings]
  rw [registry, infers.program]
  exact { linked with interfaces := linked.interfaces }

end Workspace
end DomainLang
