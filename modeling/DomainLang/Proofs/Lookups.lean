import DomainLang.Proofs.Links.Declarations

/-!
# What lookups give

A lookup that resolves gives a record that is there and has the name: of a table, of the
properties of a classifier, of the ends of a class. Of properties the nearest one with the
name is found, so it is also the one that a search through all properties finds. Lookups
among members are ambiguous only where a classifier itself declares a name twice.
-/

namespace DomainLang

open Resolved

variable {name : String} {classifier : ClassifierIndex}

/-- The two outcomes of a lookup that may have found nothing in its first part. -/
theorem Resolution.orElse_eq_resolved {α : Type} {resolution : Resolution α}
    {other : Unit → Resolution α} {value : α} :
    resolution.orElse other = .resolved value ↔
      resolution = .resolved value ∨ resolution = .notFound ∧ other () = .resolved value := by
  cases resolution <;> simp [Resolution.orElse]

theorem Resolution.orElse_eq_ambiguous {α : Type} {resolution : Resolution α}
    {other : Unit → Resolution α} :
    resolution.orElse other = .ambiguous ↔
      resolution = .ambiguous ∨ resolution = .notFound ∧ other () = .ambiguous := by
  cases resolution <;> simp [Resolution.orElse]

@[simp]
theorem Resolution.ofOption_eq_resolved {α : Type} {found : Option α} {value : α} :
    Resolution.ofOption found = .resolved value ↔ found = some value := by
  cases found <;> simp [Resolution.ofOption]

@[simp]
theorem Resolution.ofOption_ne_ambiguous {α : Type} (found : Option α) :
    Resolution.ofOption found ≠ .ambiguous := by
  cases found <;> simp [Resolution.ofOption]

/-- Two items with one key are a repetition. -/
theorem ofMatches_filter_ne_ambiguous {α κ : Type} [DecidableEq κ] {key : α → κ} {items : List α}
    (distinct : (items.map key).Nodup) (wanted : κ) :
    Resolution.ofMatches (items.filter fun item => key item = wanted) ≠ .ambiguous := by
  intro several
  rw [Resolution.ofMatches_eq_ambiguous, ← List.countP_eq_length_filter] at several
  have once := List.nodup_iff_count_le_one.mp distinct wanted
  rw [List.count, List.countP_map] at once
  have same : ((· == wanted) ∘ key) = fun item => decide (key item = wanted) := by
    funext item
    exact beq_eq_decide _ _
  rw [same] at once
  omega

namespace SymbolTable.Names

variable {kind : RecordKind} {α : Type} [Inhabited α] {table : SymbolTable (Index kind)}
  {arena : Arena kind α} {header : α → Header}

/-- What a table finds is there and has the name. -/
theorem of_find (names : table.Names arena header) {index : Index kind}
    (found : table.find name = .resolved index) :
    arena.Holds index ∧ (header (arena.get index)).name.name = name := by
  rw [names name, Resolution.ofMatches_eq_resolved] at found
  have member : index ∈ arena.select fun record => (header record).name.name = name := by
    simp [found]
  simpa using member

end SymbolTable.Names

namespace Registry.Names

variable {registry : Registry} {program : Program}

/-- What a lookup of a class or interface finds is there and has the name. -/
theorem of_findClassifier (names : registry.Names program)
    (found : registry.findClassifier name = .resolved classifier) :
    program.HoldsClassifier classifier ∧ (program.classifier classifier).name = name := by
  unfold findClassifier at found
  split at found
  · obtain ⟨index, interface, rfl⟩ := Resolution.map_eq_resolved.mp found
    exact names.interfaces.of_find interface
  · obtain ⟨index, klass, rfl⟩ := Resolution.map_eq_resolved.mp found
    exact names.classes.of_find klass
  · cases found

end Registry.Names

namespace Program

variable {program : Program} {property : PropertyIndex} {klass : ClassIndex}
  {associationEnd : AssociationEndIndex}

/-- A classifier lists properties of its own. -/
theorem Coherent.of_mem_properties (coherent : program.Coherent none none)
    (member : property ∈ (program.classifier classifier).properties) :
    program.properties.Holds property ∧ (program.properties.get property).owner = classifier := by
  by_cases holds : program.HoldsClassifier classifier
  · exact (coherent.properties.mem_listed holds id).mp member
  · rw [classifier_of_not_holds holds] at member
    cases member

/-- A classifier lists end signatures of its own. -/
theorem Coherent.of_mem_endSignatures (coherent : program.Coherent none none)
    {signature : EndSignatureIndex}
    (member : signature ∈ (program.classifier classifier).endSignatures) :
    program.endSignatures.Holds signature ∧
      (program.endSignatures.get signature).owner = classifier := by
  by_cases holds : program.HoldsClassifier classifier
  · exact (coherent.endSignatures.mem_listed holds id).mp member
  · rw [classifier_of_not_holds holds] at member
    cases member

/-- Every class lists the ends that it owns. -/
def EndsListed (program : Program) : Prop :=
  ∀ klass, program.classes.Holds klass → (program.classes.get klass).associationEnds =
    program.associationEnds.select fun associationEnd => associationEnd.owner = some klass

/-- A class lists ends of its own. -/
theorem EndsListed.of_mem_associationEnds (listed : program.EndsListed)
    (member : associationEnd ∈ (program.classes.get klass).associationEnds) :
    program.associationEnds.Holds associationEnd ∧
      (program.associationEnds.get associationEnd).owner = some klass := by
  by_cases holds : program.classes.Holds klass
  · rw [listed klass holds] at member
    simpa using member
  · rw [Arena.get_of_not_holds holds] at member
    cases member

section Properties

/-- A classifier is its own first source. -/
theorem exists_propertySources_eq_cons (program : Program) (classifier : ClassifierIndex) :
    ∃ others, program.propertySources classifier = classifier :: others := by
  cases classifier <;> exact ⟨_, rfl⟩

/-- Declared and inherited properties are there. -/
theorem Coherent.holds_of_mem_allProperties (coherent : program.Coherent none none)
    (member : property ∈ program.allProperties classifier) : program.properties.Holds property := by
  obtain ⟨source, -, declared⟩ := List.mem_flatMap.mp (mem_of_mem_keepFirst member)
  exact (coherent.of_mem_properties declared).1

/-- A property that is found is the first of its name among all properties. -/
theorem find?_allProperties_of_findProperty
    (found : program.findProperty classifier name = .resolved property) :
    (program.allProperties classifier).find? (fun other => program.propertyName other = name) =
      some property := by
  simp only [findProperty, Resolution.orElse_eq_resolved] at found
  rcases found with own | ⟨-, inherited⟩
  · obtain ⟨others, sources⟩ := program.exists_propertySources_eq_cons classifier
    rw [Resolution.ofMatches_eq_resolved] at own
    rw [allProperties, find?_keepFirst, sources, List.flatMap_cons, List.find?_append,
      ← List.head?_filter, own]
    rfl
  · exact Resolution.ofOption_eq_resolved.mp inherited

/-- A property that is found has the name. -/
theorem propertyName_of_findProperty
    (found : program.findProperty classifier name = .resolved property) :
    program.propertyName property = name := by
  simpa using List.find?_some (find?_allProperties_of_findProperty found)

/-- A property is ambiguous only when the classifier declares its name twice. -/
theorem findProperty_ne_ambiguous
    (distinct : ((program.classifier classifier).properties.map program.propertyName).Nodup)
    (name : String) : program.findProperty classifier name ≠ .ambiguous := by
  intro ambiguous
  simp only [findProperty, Resolution.orElse_eq_ambiguous] at ambiguous
  rcases ambiguous with own | ⟨-, inherited⟩
  · exact ofMatches_filter_ne_ambiguous distinct name own
  · exact Resolution.ofOption_ne_ambiguous _ inherited

end Properties

section Ends

/-- An end of a class is declared by the class or by a superclass. -/
theorem mem_allAssociationEnds (member : associationEnd ∈ program.allAssociationEnds klass) :
    ∃ owner, program.isSubclassOf klass owner ∧
      associationEnd ∈ (program.classes.get owner).associationEnds := by
  rw [allAssociationEnds, List.mem_append, List.mem_filter] at member
  rcases member with own | ⟨inherited, -⟩
  · exact ⟨klass, by simp [isSubclassOf], own⟩
  · obtain ⟨ancestor, above, declared⟩ := List.mem_flatMap.mp (mem_of_mem_keepFirst inherited)
    exact ⟨ancestor, by simp [isSubclassOf, above], declared⟩

/-- Declared and inherited ends are there. -/
theorem EndsListed.holds_of_mem_allAssociationEnds (listed : program.EndsListed)
    (member : associationEnd ∈ program.allAssociationEnds klass) :
    program.associationEnds.Holds associationEnd := by
  obtain ⟨_, -, declared⟩ := mem_allAssociationEnds member
  exact (listed.of_mem_associationEnds declared).1

/-- When a class names its own ends apart, all its ends have different names. -/
theorem nodup_allAssociationEnds_names
    (distinct : ((program.classes.get klass).associationEnds.map program.endName).Nodup) :
    ((program.allAssociationEnds klass).map program.endName).Nodup := by
  rw [allAssociationEnds, List.map_append, List.nodup_append]
  refine ⟨distinct, ?_, ?_⟩
  · exact (nodup_keys_keepFirst program.endName _).sublist (List.filter_sublist.map _)
  · rintro name own other inherited rfl
    obtain ⟨associationEnd, member, rfl⟩ := List.mem_map.mp inherited
    have hidden := (List.mem_filter.mp member).2
    simp only [decide_eq_true_eq] at hidden
    exact hidden own

theorem findAssociationEnd_ne_ambiguous
    (distinct : ((program.classes.get klass).associationEnds.map program.endName).Nodup)
    (name : String) : program.findAssociationEnd klass name ≠ .ambiguous :=
  ofMatches_filter_ne_ambiguous (nodup_allAssociationEnds_names distinct) name

/-- A step along an end starts at a class that has the end, by itself or from a superclass. -/
theorem EndsListed.of_findHop (listed : program.EndsListed)
    (found : program.findHop name classifier = .resolved associationEnd) :
    program.associationEnds.Holds associationEnd ∧ program.endName associationEnd = name ∧
      ∃ klass owner, classifier = .klass klass ∧
        (program.associationEnds.get associationEnd).owner = some owner ∧
        program.isSubclassOf klass owner := by
  cases classifier with
  | interface index => cases found
  | klass klass =>
    rw [findHop, findAssociationEnd, Resolution.ofMatches_eq_resolved] at found
    have member : associationEnd ∈ (program.allAssociationEnds klass).filter fun other =>
        program.endName other = name := by simp [found]
    obtain ⟨among, called⟩ := List.mem_filter.mp member
    obtain ⟨owner, above, declared⟩ := mem_allAssociationEnds among
    obtain ⟨holds, owned⟩ := listed.of_mem_associationEnds declared
    exact ⟨holds, of_decide_eq_true called, klass, owner, rfl, owned, above⟩

theorem findHop_ne_ambiguous
    (distinct : ∀ klass, classifier = .klass klass →
      ((program.classes.get klass).associationEnds.map program.endName).Nodup) (name : String) :
    program.findHop name classifier ≠ .ambiguous := by
  cases classifier with
  | interface index => simp [findHop]
  | klass klass => exact findAssociationEnd_ne_ambiguous (distinct klass rfl) name

end Ends

def signatureName (program : Program) (signature : EndSignatureIndex) : String :=
  (program.endSignatures.get signature).name.name

/-- A reference is an end that the classifier has or a signature that it declares. -/
theorem findReference_eq_resolved {reference : Reference}
    (found : program.findReference name classifier = .resolved reference) :
    (∃ associationEnd, reference = .associationEnd associationEnd ∧
      program.findHop name classifier = .resolved associationEnd) ∨
    ∃ signature, reference = .signature signature ∧
      signature ∈ (program.classifier classifier).endSignatures ∧
      program.signatureName signature = name := by
  rcases Resolution.orElse_eq_resolved.mp found with hop | ⟨-, signature⟩
  · obtain ⟨associationEnd, step, rfl⟩ := Resolution.map_eq_resolved.mp hop
    exact .inl ⟨associationEnd, rfl, step⟩
  · rw [Resolution.ofMatches_eq_resolved] at signature
    have member : reference ∈ ((program.classifier classifier).endSignatures.filter fun other =>
        (program.endSignatures.get other).name.name = name).map Reference.signature := by
      simp [signature]
    obtain ⟨other, among, rfl⟩ := List.mem_map.mp member
    obtain ⟨declared, called⟩ := List.mem_filter.mp among
    exact .inr ⟨other, rfl, declared, of_decide_eq_true called⟩

end Program
end DomainLang
