import DomainLang.Proofs.Hierarchy.Conformance
import DomainLang.Proofs.Lookups

/-!
# The nearest declaration wins

Members are inherited from a list of sources, nearest first, and of several members with one
name the first one counts: `IsNearest` says which that is. For properties the sources are
exactly the classifiers that a classifier conforms to, and for ends a class and its superclass
chain.

A lookup first looks at what the classifier itself declares, where a name may be ambiguous,
and then at everything that is inherited, where it cannot be. Both lookups have this shape, so
the outcomes of one are those of the other.
-/

namespace DomainLang

/-- The item is the first of a name at the nearest source that has the name. -/
def IsNearest {α β : Type} (declared : α → List β) (nameOf : β → String) (name : String)
    (sources : List α) (item : β) : Prop :=
  ∃ nearer source farther, sources = nearer ++ source :: farther ∧
    (∀ other ∈ nearer, ∀ candidate ∈ declared other, nameOf candidate ≠ name) ∧
    (declared source).find? (fun candidate => nameOf candidate = name) = some item

section Sources

variable {α β : Type} {declared : α → List β} {nameOf : β → String} {name : String}
  {sources : List α} {item : β}

theorem IsNearest.nameOf_eq (isNearest : IsNearest declared nameOf name sources item) :
    nameOf item = name := by
  obtain ⟨_, _, _, _, _, found⟩ := isNearest
  simpa using List.find?_some found

/-- What is found first among all sources is the nearest. -/
theorem find?_flatMap_eq_some_iff :
    (sources.flatMap declared).find? (fun candidate => nameOf candidate = name) = some item ↔
      IsNearest declared nameOf name sources item := by
  induction sources with
  | nil => simp [IsNearest]
  | cons first rest ih =>
    rw [List.flatMap_cons, List.find?_append]
    cases here : (declared first).find? fun candidate => nameOf candidate = name with
    | some found =>
      rw [Option.some_or]
      constructor
      · rintro same
        exact ⟨[], first, rest, rfl, by simp, same ▸ here⟩
      · rintro ⟨nearer, source, farther, split, none, isFirst⟩
        cases nearer with
        | nil =>
          cases split
          exact here.symm.trans isFirst
        | cons other nearer =>
          cases split
          have absent := none first List.mem_cons_self found (List.mem_of_find?_eq_some here)
          exact absurd (by simpa using List.find?_some here) absent
    | none =>
      rw [Option.none_or, ih]
      have absent : ∀ candidate ∈ declared first, nameOf candidate ≠ name := by
        simpa using List.find?_eq_none.mp here
      constructor
      · rintro ⟨nearer, source, farther, rfl, none, isFirst⟩
        exact ⟨first :: nearer, source, farther, rfl,
          List.forall_mem_cons.mpr ⟨absent, none⟩, isFirst⟩
      · rintro ⟨nearer, source, farther, split, none, isFirst⟩
        cases nearer with
        | nil =>
          cases split
          rw [here] at isFirst
          cases isFirst
        | cons other nearer =>
          cases split
          exact ⟨nearer, source, farther, rfl, (List.forall_mem_cons.mp none).2, isFirst⟩

theorem find?_flatMap_eq_none_iff :
    (sources.flatMap declared).find? (fun candidate => nameOf candidate = name) = none ↔
      ∀ source ∈ sources, ∀ candidate ∈ declared source, nameOf candidate ≠ name := by
  simp only [List.find?_eq_none, List.mem_flatMap, decide_eq_true_eq]
  exact ⟨fun none source member candidate among => none candidate ⟨source, member, among⟩,
    fun none candidate ⟨source, member, among⟩ => none source member candidate among⟩

end Sources

theorem Resolution.orElse_of_ne_notFound {β : Type} {resolution : Resolution β}
    (found : resolution ≠ .notFound) (other : Unit → Resolution β) :
    resolution.orElse other = resolution := by
  cases resolution with
  | notFound => exact absurd rfl found
  | resolved _ | ambiguous => rfl

section Outcomes

variable {α β : Type} {declared : α → List β} {nameOf : β → String} {name : String}
  {first : α} {others : List α}

/-- Look a name up at the first source, where it may be ambiguous, and then at all of them. -/
def nearest (declared : α → List β) (nameOf : β → String) (name : String) (first : α)
    (others : List α) : Resolution β :=
  (Resolution.ofMatches ((declared first).filter (nameOf · = name))).orElse fun _ =>
    .ofOption (((first :: others).flatMap declared).find? (nameOf · = name))

theorem nearest_eq_ambiguous :
    nearest declared nameOf name first others = .ambiguous ↔
      2 ≤ (declared first).countP (nameOf · = name) := by
  simp [nearest, Resolution.orElse_eq_ambiguous, Resolution.ofMatches_eq_ambiguous,
    List.countP_eq_length_filter]

/-- A lookup that is not ambiguous gives the nearest item. -/
theorem nearest_of_lt (clear : (declared first).countP (nameOf · = name) < 2) :
    nearest declared nameOf name first others =
      .ofOption (((first :: others).flatMap declared).find? (nameOf · = name)) := by
  rw [List.countP_eq_length_filter] at clear
  rw [nearest, List.flatMap_cons, List.find?_append, ← List.head?_filter]
  generalize (declared first).filter (nameOf · = name) = named at clear ⊢
  rcases named with _ | ⟨only, _ | ⟨second, rest⟩⟩
  · rfl
  · rfl
  · rw [List.length_cons, List.length_cons] at clear
    omega

theorem nearest_eq_resolved {item : β} :
    nearest declared nameOf name first others = .resolved item ↔
      (declared first).countP (nameOf · = name) < 2 ∧
        IsNearest declared nameOf name (first :: others) item := by
  by_cases clear : (declared first).countP (nameOf · = name) < 2
  · rw [nearest_of_lt clear, Resolution.ofOption_eq_resolved, and_iff_right clear,
      find?_flatMap_eq_some_iff]
  · rw [nearest_eq_ambiguous.mpr (Nat.not_lt.mp clear)]
    simp [clear]

theorem nearest_eq_notFound :
    nearest declared nameOf name first others = .notFound ↔
      ∀ source ∈ first :: others, ∀ candidate ∈ declared source, nameOf candidate ≠ name := by
  rw [← find?_flatMap_eq_none_iff]
  by_cases clear : (declared first).countP (nameOf · = name) < 2
  · rw [nearest_of_lt clear]
    cases ((first :: others).flatMap declared).find? (nameOf · = name) <;>
      simp [Resolution.ofOption]
  · have owned : 0 < (declared first).countP (nameOf · = name) := by omega
    obtain ⟨item, among, named⟩ := List.countP_pos_iff.mp owned
    rw [nearest_eq_ambiguous.mpr (Nat.not_lt.mp clear), find?_flatMap_eq_none_iff]
    simp only [reduceCtorEq, false_iff, not_forall]
    exact ⟨first, List.mem_cons_self, item, among, fun apart => apart (of_decide_eq_true named)⟩

end Outcomes

theorem mem_keys_keepFirst {β κ : Type} [DecidableEq κ] {key : β → κ} {items : List β}
    {wanted : κ} : wanted ∈ (keepFirst key items).map key ↔ wanted ∈ items.map key := by
  constructor
  · intro member
    obtain ⟨item, kept, rfl⟩ := List.mem_map.mp member
    exact List.mem_map_of_mem (mem_of_mem_keepFirst kept)
  · intro member
    cases found : (keepFirst key items).find? fun item => key item = wanted with
    | some item =>
      have called : key item = wanted := by simpa using List.find?_some found
      exact List.mem_map.mpr ⟨item, List.mem_of_find?_eq_some found, called⟩
    | none =>
      obtain ⟨item, among, rfl⟩ := List.mem_map.mp member
      rw [find?_keepFirst] at found
      simpa using List.find?_eq_none.mp found item among

/-- Of the items with one key only the first is kept. -/
theorem filter_keepFirst {β κ : Type} [DecidableEq κ] (key : β → κ) (items : List β) (wanted : κ) :
    (keepFirst key items).filter (fun item => key item = wanted) =
      (items.find? fun item => key item = wanted).toList := by
  induction items with
  | nil => rfl
  | cons first rest ih =>
    rw [keepFirst]
    by_cases here : key first = wanted
    · simp [here, List.filter_filter]
    · rw [List.filter_cons_of_neg (by simpa using here),
        List.find?_cons_of_neg (by simpa using here), ← ih, List.filter_filter]
      apply List.filter_congr
      intro item _
      by_cases found : key item = wanted
      · simp [found, Ne.symm here]
      · simp [found]

namespace Program

variable {program : Program}

/-- The classifier itself declares a property with the name. -/
def DeclaresProperty (program : Program) (classifier : ClassifierIndex) (name : String) : Prop :=
  ∃ property ∈ (program.classifier classifier).properties, program.propertyName property = name

/-- The class itself owns an end with the name. -/
def OwnsEnd (program : Program) (klass : ClassIndex) (name : String) : Prop :=
  ∃ associationEnd ∈ (program.classes.get klass).associationEnds,
    program.endName associationEnd = name

section Properties

/-- The names that are visible are those declared on what the classifier conforms to. -/
theorem mem_propertyNames {classifier : ClassifierIndex} {name : String} :
    name ∈ (program.allProperties classifier).map program.propertyName ↔
      ∃ source, program.conforms classifier source ∧ program.DeclaresProperty source name := by
  rw [allProperties, mem_keys_keepFirst]
  simp only [List.mem_map, List.mem_flatMap, mem_propertySources, DeclaresProperty]
  constructor
  · rintro ⟨property, ⟨source, above, declared⟩, named⟩
    exact ⟨source, above, property, declared, named⟩
  · rintro ⟨source, above, property, declared, named⟩
    exact ⟨property, ⟨source, above, declared⟩, named⟩

/-- The properties of a classifier are the nearest ones of their names. -/
theorem mem_allProperties_iff {classifier : ClassifierIndex} {property : PropertyIndex} :
    property ∈ program.allProperties classifier ↔
      IsNearest (fun source => (program.classifier source).properties) program.propertyName
        (program.propertyName property) (program.propertySources classifier) property := by
  rw [allProperties, mem_keepFirst_iff, find?_flatMap_eq_some_iff]

/-- A lookup of a property is a lookup of the nearest one. -/
theorem findProperty_eq_nearest {classifier : ClassifierIndex} {others : List ClassifierIndex}
    (sources : program.propertySources classifier = classifier :: others) (name : String) :
    program.findProperty classifier name =
      nearest (fun source => (program.classifier source).properties) program.propertyName name
        classifier others := by
  simp only [findProperty, allProperties, sources, find?_keepFirst]
  rfl

end Properties

section Ends

/-- A lookup of an end is a lookup of the nearest one along the superclass chain. -/
theorem findAssociationEnd_eq_nearest (klass : ClassIndex) (name : String) :
    program.findAssociationEnd klass name =
      nearest (fun owner => (program.classes.get owner).associationEnds) program.endName name
        klass (program.superclassChain klass) := by
  generalize inheritedEq : ((program.superclassChain klass).flatMap fun ancestor =>
    (program.classes.get ancestor).associationEnds) = inherited
  generalize ownEq : (program.classes.get klass).associationEnds = own
  rw [findAssociationEnd, allAssociationEnds, nearest, List.flatMap_cons, inheritedEq, ownEq,
    List.filter_append, List.filter_filter]
  by_cases owned : name ∈ own.map program.endName
  · -- An own end hides all inherited ones.
    have hidden : (keepFirst program.endName inherited).filter (fun associationEnd =>
        decide (program.endName associationEnd = name) &&
          decide (program.endName associationEnd ∉ own.map program.endName)) = [] := by
      rw [List.filter_eq_nil_iff]
      rintro associationEnd - kept
      simp only [Bool.and_eq_true, decide_eq_true_eq] at kept
      exact kept.2 (kept.1 ▸ owned)
    have found : Resolution.ofMatches (own.filter (program.endName · = name)) ≠ .notFound := by
      obtain ⟨associationEnd, member, named⟩ := List.mem_map.mp owned
      rw [Ne, Resolution.ofMatches_eq_notFound, List.filter_eq_nil_iff]
      exact fun none => none associationEnd member (by simpa using named)
    rw [hidden, List.append_nil]
    exact (Resolution.orElse_of_ne_notFound found _).symm
  · have absent : own.filter (program.endName · = name) = [] := by
      rw [List.filter_eq_nil_iff]
      intro associationEnd member named
      exact owned (of_decide_eq_true named ▸ List.mem_map_of_mem member)
    have visible : (keepFirst program.endName inherited).filter (fun associationEnd =>
        decide (program.endName associationEnd = name) &&
          decide (program.endName associationEnd ∉ own.map program.endName)) =
        (inherited.find? (program.endName · = name)).toList := by
      rw [← filter_keepFirst]
      apply List.filter_congr
      intro associationEnd _
      by_cases named : program.endName associationEnd = name
      · simp [named, owned]
      · simp [named]
    have noneFirst : own.find? (program.endName · = name) = none := by
      rw [← List.head?_filter, absent]
      rfl
    rw [visible, absent, List.find?_append, noneFirst]
    cases inherited.find? (program.endName · = name) <;> rfl

end Ends

/-- What lookups of members find, in the order in which members are inherited. -/
structure NearestLookups (program : Program) : Prop where
  sources_klass : ∀ klass, program.propertySources (.klass klass) =
    .klass klass :: (program.superclassChain klass).map .klass ++
      (program.allInterfaces (.klass klass)).map .interface
  sources_interface : ∀ interface, program.propertySources (.interface interface) =
    .interface interface :: (program.allInterfaces (.interface interface)).map .interface
  names_nodup : ∀ classifier,
    ((program.allProperties classifier).map program.propertyName).Nodup
  mem_names : ∀ classifier name,
    name ∈ (program.allProperties classifier).map program.propertyName ↔
      ∃ source, program.conforms classifier source ∧ program.DeclaresProperty source name
  mem_properties : ∀ classifier property, property ∈ program.allProperties classifier ↔
    IsNearest (fun source => (program.classifier source).properties) program.propertyName
      (program.propertyName property) (program.propertySources classifier) property
  property_ambiguous : ∀ classifier name, program.findProperty classifier name = .ambiguous ↔
    2 ≤ (program.classifier classifier).properties.countP (program.propertyName · = name)
  property_notFound : ∀ classifier name, program.findProperty classifier name = .notFound ↔
    ∀ source, program.conforms classifier source → ¬ program.DeclaresProperty source name
  property_resolved : ∀ classifier name property,
    program.findProperty classifier name = .resolved property ↔
      (program.classifier classifier).properties.countP (program.propertyName · = name) < 2 ∧
        property ∈ program.allProperties classifier ∧ program.propertyName property = name
  end_ambiguous : ∀ klass name, program.findAssociationEnd klass name = .ambiguous ↔
    2 ≤ (program.classes.get klass).associationEnds.countP (program.endName · = name)
  end_notFound : ∀ klass name, program.findAssociationEnd klass name = .notFound ↔
    ∀ owner ∈ klass :: program.superclassChain klass, ¬ program.OwnsEnd owner name
  end_resolved : ∀ klass name associationEnd,
    program.findAssociationEnd klass name = .resolved associationEnd ↔
      (program.classes.get klass).associationEnds.countP (program.endName · = name) < 2 ∧
        IsNearest (fun owner => (program.classes.get owner).associationEnds) program.endName name
          (klass :: program.superclassChain klass) associationEnd
  visible : ∀ sub super, program.conforms sub super → ∀ name,
    name ∈ (program.allProperties super).map program.propertyName →
      name ∈ (program.allProperties sub).map program.propertyName

/-- In every program lookups pick the nearest declaration. -/
theorem nearestLookups (program : Program) : program.NearestLookups where
  sources_klass _ := rfl
  sources_interface _ := rfl
  names_nodup _ := nodup_keys_keepFirst ..
  mem_names _ _ := mem_propertyNames
  mem_properties _ _ := mem_allProperties_iff
  property_ambiguous classifier name := by
    obtain ⟨others, sources⟩ := program.exists_propertySources_eq_cons classifier
    rw [findProperty_eq_nearest sources, nearest_eq_ambiguous]
  property_notFound classifier name := by
    obtain ⟨others, sources⟩ := program.exists_propertySources_eq_cons classifier
    rw [findProperty_eq_nearest sources, nearest_eq_notFound, ← sources]
    simp [mem_propertySources, DeclaresProperty]
  property_resolved classifier name property := by
    obtain ⟨others, sources⟩ := program.exists_propertySources_eq_cons classifier
    rw [findProperty_eq_nearest sources, nearest_eq_resolved, ← sources]
    refine and_congr_right fun _ => ⟨fun isNearest => ?_, ?_⟩
    · have named := isNearest.nameOf_eq
      exact ⟨mem_allProperties_iff.mpr (named ▸ isNearest), named⟩
    · rintro ⟨member, rfl⟩
      exact mem_allProperties_iff.mp member
  end_ambiguous klass name := by
    rw [findAssociationEnd_eq_nearest, nearest_eq_ambiguous]
  end_notFound klass name := by
    rw [findAssociationEnd_eq_nearest, nearest_eq_notFound]
    simp [OwnsEnd]
  end_resolved klass name associationEnd := by
    rw [findAssociationEnd_eq_nearest, nearest_eq_resolved]
  visible sub super below name member := by
    obtain ⟨source, above, declared⟩ := mem_propertyNames.mp member
    exact mem_propertyNames.mpr ⟨source,
      conforms_iff.mpr ((conforms_iff.mp below).trans (conforms_iff.mp above)), declared⟩

end Program
end DomainLang
