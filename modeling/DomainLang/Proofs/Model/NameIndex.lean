import DomainLang.Model.Summary
import DomainLang.Proofs.Model.DeclarationOrder
import Mathlib.Data.Set.Card

/-!
# The index of names

A model can be made of any parts, also of parts in which names and ordinals are used again. The
index gives each name to one of the elements called so: the one with the least ordinal, and among
those the one of the earliest kind and the least position. Elements are listed by kind, so this is
what a stable sort by ordinals puts first (`pairwise_mergeSort_of_pairwise`).
-/

namespace DomainLang

namespace Model

/-- The place of an element's kind among the kinds. -/
def TopLevelId.rank : TopLevelId → Nat
  | enumeration _ => 0
  | interface _ => 1
  | klass _ => 2
  | association _ => 3
  | projection _ => 4
  | serviceGroup _ => 5

/-- One element is listed before another: its kind comes earlier, or it has a lower position
within the kind. -/
def TopLevelId.ListedBefore (first second : TopLevelId) : Prop :=
  first.rank < second.rank ∨ first.rank = second.rank ∧ first.value < second.value

namespace Parts

variable {parts : Parts}

/-- Whether a top-level record has the id. -/
def HasElement (parts : Parts) (id : TopLevelId) : Prop :=
  id.value < parts.size id.kind

/-- Whether an element goes first when two have one name. -/
def Precedes (parts : Parts) (first second : TopLevelId) : Prop :=
  (parts.info first).ordinal < (parts.info second).ordinal ∨
    (parts.info first).ordinal = (parts.info second).ordinal ∧ first.ListedBefore second

/-- The element that a name means. -/
structure Means (parts : Parts) (name : String) (id : TopLevelId) : Prop where
  has : parts.HasElement id
  called : (parts.info id).name = name
  first : ∀ other, parts.HasElement other → (parts.info other).name = name →
    other = id ∨ parts.Precedes id other

def elementNames (parts : Parts) : Set String :=
  { name | ∃ id, parts.HasElement id ∧ (parts.info id).name = name }

theorem mem_ids {kind : RecordKind} {α : Type} {records : List α} {id : Id kind} :
    id ∈ ids records ↔ id.value < records.length := by
  cases id
  simp [ids]

theorem mem_topLevelByKind {id : TopLevelId} :
    id ∈ parts.topLevelByKind ↔ parts.HasElement id := by
  cases id <;> simp [topLevelByKind, mem_ids, HasElement, TopLevelId.kind, TopLevelId.value, size]

theorem pairwise_topLevelByKind (parts : Parts) :
    parts.topLevelByKind.Pairwise TopLevelId.ListedBefore := by
  -- Kind by kind, all elements so far are in order and of an earlier kind than the next ones.
  have next {kind : RecordKind} {α : Type} {earlier : List TopLevelId} (records : List α)
      (wrap : Id kind → TopLevelId) (rank : Nat)
      (ordered : earlier.Pairwise TopLevelId.ListedBefore ∧ ∀ id ∈ earlier, id.rank < rank)
      (ofRank : ∀ id, (wrap id).rank = rank) (value : ∀ id, (wrap id).value = id.value) :
      (earlier ++ (ids records).map wrap).Pairwise TopLevelId.ListedBefore ∧
        ∀ id ∈ earlier ++ (ids records).map wrap, id.rank < rank + 1 := by
    constructor
    · refine List.pairwise_append.mpr ⟨ordered.1, ?_, ?_⟩
      · rw [ids, List.map_map, List.pairwise_map]
        refine List.pairwise_lt_range.imp fun less => .inr ⟨?_, ?_⟩
        · simp [ofRank]
        · simpa [value] using less
      · rintro first isFirst _ isSecond
        obtain ⟨second, -, rfl⟩ := List.mem_map.mp isSecond
        exact .inl (ofRank second ▸ ordered.2 first isFirst)
    · intro id member
      rcases List.mem_append.mp member with earlier | new
      · exact Nat.lt_succ_of_lt (ordered.2 id earlier)
      · obtain ⟨id, -, rfl⟩ := List.mem_map.mp new
        exact (ofRank id).le.trans_lt (Nat.lt_succ_self rank)
  have none : ([] : List TopLevelId).Pairwise TopLevelId.ListedBefore ∧
      ∀ id ∈ ([] : List TopLevelId), id.rank < 0 := by simp
  have enumerations := next parts.enumerations .enumeration 0 none (fun _ => rfl) fun _ => rfl
  have interfaces := next parts.interfaces .interface 1 enumerations (fun _ => rfl) fun _ => rfl
  have classes := next parts.classes .klass 2 interfaces (fun _ => rfl) fun _ => rfl
  have associations := next parts.associations .association 3 classes (fun _ => rfl) fun _ => rfl
  have projections := next parts.projections .projection 4 associations (fun _ => rfl) fun _ => rfl
  exact (next parts.serviceGroups .serviceGroup 5 projections (fun _ => rfl) fun _ => rfl).1

end Parts
end Model

namespace DomainModel

open Model

/-- The index of a model says what each name means and lists what is meant. -/
structure IndexesNames (model : DomainModel) : Prop where
  resolve_isSome_iff : ∀ name, (model.resolve name).isSome ↔ name ∈ model.parts.elementNames
  resolve_eq_some_iff : ∀ name id, model.resolve name = some id ↔ model.parts.Means name id
  nodup : model.topLevel.Nodup
  mem_topLevel_iff : ∀ id, id ∈ model.topLevel ↔
    model.parts.Means (model.parts.info id).name id
  ordinals : (model.topLevel.map fun id => (model.parts.info id).ordinal).Pairwise (· ≤ ·)
  findEnumeration : ∀ name id, model.findEnumeration name = some id ↔
    model.resolve name = some (.enumeration id)
  findInterface : ∀ name id, model.findInterface name = some id ↔
    model.resolve name = some (.interface id)
  findClass : ∀ name id, model.findClass name = some id ↔ model.resolve name = some (.klass id)
  findClassifier : ∀ name id, model.findClassifier name = some id ↔
    model.resolve name = some id.toTopLevel
  findAssociation : ∀ name id, model.findAssociation name = some id ↔
    model.resolve name = some (.association id)
  findProjection : ∀ name id, model.findProjection name = some id ↔
    model.resolve name = some (.projection id)
  findServiceGroup : ∀ name id, model.findServiceGroup name = some id ↔
    model.resolve name = some (.serviceGroup id)

end DomainModel

/-- The number of top-level elements that a summary counts. -/
def ModelSummary.elements (summary : ModelSummary) : Nat :=
  summary.enumerations + summary.interfaces + summary.classes + summary.associations +
    summary.projections + summary.serviceGroups

namespace DomainModel

open Model

/-- Every element is counted under one kind. -/
theorem elements_ofModel (model : DomainModel) :
    (ModelSummary.ofModel model).elements = model.topLevel.length := by
  simp only [ModelSummary.elements, ModelSummary.ofModel]
  induction model.topLevel with
  | nil => rfl
  | cons id rest ih => cases id <;> simp <;> omega

variable (parts : Parts)

/-- The elements in the order of their ordinals, ties as they are listed. -/
def arranged : List TopLevelId :=
  parts.topLevelByKind.mergeSort fun first second =>
    (parts.info first).ordinal ≤ (parts.info second).ordinal

theorem pairwise_arranged : (arranged parts).Pairwise parts.Precedes :=
  pairwise_mergeSort_of_pairwise parts.pairwise_topLevelByKind

theorem mem_arranged {id : TopLevelId} : id ∈ arranged parts ↔ parts.HasElement id :=
  (List.mergeSort_perm ..).mem_iff.trans Parts.mem_topLevelByKind

/-- What a name means is what comes first in that order. -/
theorem find?_arranged_iff {name : String} {id : TopLevelId} :
    (arranged parts).find? (fun other => (parts.info other).name = name) = some id ↔
      parts.Means name id := by
  rw [find?_eq_some_iff_first (pairwise_arranged parts) (by
    unfold Parts.Precedes TopLevelId.ListedBefore
    omega)]
  simp only [mem_arranged, decide_eq_true_eq]
  exact ⟨fun ⟨has, called, first⟩ => ⟨has, called, first⟩, fun ⟨has, called, first⟩ =>
    ⟨has, called, first⟩⟩

/-- The elements that names mean, in that order. -/
def meant : List TopLevelId :=
  keepFirst (fun id => (parts.info id).name) (arranged parts)

theorem mem_meant {id : TopLevelId} :
    id ∈ meant parts ↔ parts.Means (parts.info id).name id :=
  mem_keepFirst_iff.trans (find?_arranged_iff parts)

theorem names_ofParts : (ofParts parts).names =
    (meant parts).map fun id => ((parts.info id).name, id) :=
  keepFirst_map ..

theorem topLevel_ofParts : (ofParts parts).topLevel = meant parts := by
  simp [topLevel, names_ofParts, Function.comp_def]

theorem map_fst_names_ofParts :
    (ofParts parts).names.map Prod.fst = (meant parts).map fun id => (parts.info id).name := by
  simp [names_ofParts, Function.comp_def]

theorem nodup_names_ofParts : ((ofParts parts).names.map Prod.fst).Nodup :=
  map_fst_names_ofParts parts ▸ nodup_keys_keepFirst _ _

theorem resolve_ofParts_eq_some_iff {name : String} {id : TopLevelId} :
    (ofParts parts).resolve name = some id ↔ parts.Means name id := by
  rw [resolve, lookup_eq_some_iff_mem (nodup_names_ofParts parts), names_ofParts, List.mem_map]
  constructor
  · rintro ⟨other, member, same⟩
    cases same
    exact (mem_meant parts).mp member
  · intro means
    exact ⟨id, (mem_meant parts).mpr (means.called.symm ▸ means), by rw [means.called]⟩

/-- Every name of an element means one of them. -/
theorem exists_means {name : String} (known : name ∈ parts.elementNames) :
    ∃ id, parts.Means name id := by
  obtain ⟨id, has, called⟩ := known
  have isSome : ((arranged parts).find? fun other => (parts.info other).name = name).isSome :=
    List.find?_isSome.mpr ⟨id, (mem_arranged parts).mpr has, decide_eq_true called⟩
  obtain ⟨found, isFound⟩ := Option.isSome_iff_exists.mp isSome
  exact ⟨found, (find?_arranged_iff parts).mp isFound⟩

theorem indexesNames_ofParts : (ofParts parts).IndexesNames := by
  have select {β : Type} {found : Option TopLevelId} {select : TopLevelId → Option β}
      {wrap : β → TopLevelId} (selects : ∀ top id, select top = some id ↔ top = wrap id) (id : β) :
      found.bind select = some id ↔ found = some (wrap id) := by
    simp [Option.bind_eq_some_iff, selects]
  constructor
  case resolve_isSome_iff =>
    intro name
    simp only [Option.isSome_iff_exists, resolve_ofParts_eq_some_iff]
    exact ⟨fun ⟨id, means⟩ => ⟨id, means.has, means.called⟩, exists_means parts⟩
  case resolve_eq_some_iff => exact fun name id => resolve_ofParts_eq_some_iff parts
  case nodup =>
    rw [topLevel_ofParts]
    exact (nodup_keys_keepFirst _ _).of_map
  case mem_topLevel_iff => exact fun id => topLevel_ofParts parts ▸ mem_meant parts
  case ordinals =>
    rw [topLevel_ofParts, List.pairwise_map]
    refine ((pairwise_arranged parts).sublist (keepFirst_sublist _ _)).imp fun precedes => ?_
    rcases precedes with less | ⟨same, -⟩
    · exact Nat.le_of_lt less
    · exact Nat.le_of_eq same
  case findClassifier =>
    exact fun name => select
      (by rintro ⟨⟩ ⟨⟩ <;> simp [TopLevelId.classifier?, ClassifierId.toTopLevel])
  all_goals exact fun name => select (by rintro ⟨⟩ ⟨⟩ <;> simp)

theorem ncard_elementNames : parts.elementNames.ncard = (ofParts parts).topLevel.length := by
  have names : parts.elementNames = ((ofParts parts).names.map Prod.fst).toFinset := by
    ext name
    simp only [List.coe_toFinset, Set.mem_ofPred_eq, map_fst_names_ofParts, List.mem_map, mem_meant]
    constructor
    · intro known
      obtain ⟨id, means⟩ := exists_means parts known
      exact ⟨id, means.called.symm ▸ means, means.called⟩
    · rintro ⟨id, means, rfl⟩
      exact ⟨id, means.has, rfl⟩
  rw [names, Set.ncard_coe_finset, List.toFinset_card_of_nodup (nodup_names_ofParts parts),
    topLevel, List.length_map, List.length_map]

end DomainModel

/-- Any parts are indexed by what their names mean, and a summary of them counts as many elements
as there are names. -/
theorem ofParts_indexes_names (parts : Model.Parts) :
    (DomainModel.ofParts parts).IndexesNames ∧
      (ModelSummary.ofModel (.ofParts parts)).elements = parts.elementNames.ncard :=
  ⟨DomainModel.indexesNames_ofParts parts,
    (DomainModel.elements_ofModel _).trans (DomainModel.ncard_elementNames parts).symm⟩

end DomainLang
