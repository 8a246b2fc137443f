import DomainLang.Vocabulary
import DomainLang.Proofs.Collection

/-!
# Codecs read what they write

The facts that every codec of the library is made of. A record is read back from an object with
one field per component, a word from its name, a list item by item, and an optional value from
itself or `null`, provided that no value of its type is written as `null`. Numbers are read back
when they fit their width.

`Json.read_record` is the one step that all records share: their fields have different names, so
every component is found. What is left to show of a record is that its components are read.
-/

namespace DomainLang

namespace Json

variable {fields : List (String × Json)}

theorem fieldsNamed_cons (name : String) (field : String × Json) (rest : List (String × Json)) :
    fieldsNamed name (field :: rest) =
      if field.1 = name then field.2 :: fieldsNamed name rest else fieldsNamed name rest := by
  rw [fieldsNamed, List.filterMap_cons]
  split <;> split <;> simp_all [fieldsNamed]

theorem fieldsNamed_eq_nil {name : String} (absent : name ∉ fields.map Prod.fst) :
    fieldsNamed name fields = [] := by
  rw [fieldsNamed, List.filterMap_eq_nil_iff]
  intro field member
  rw [if_neg]
  rintro rfl
  exact absent (List.mem_map_of_mem member)

/-- A field is found when no other has its name. -/
theorem uniqueField_of_mem (distinct : (fields.map Prod.fst).Nodup) {field : String × Json}
    (member : field ∈ fields) : uniqueField fields field.1 = some (some field.2) := by
  have alone : fieldsNamed field.1 fields = [field.2] := by
    induction fields with
    | nil => cases member
    | cons first rest ih =>
      rw [List.map_cons, List.nodup_cons] at distinct
      rw [fieldsNamed_cons]
      rcases List.mem_cons.mp member with rfl | later
      · rw [if_pos rfl, fieldsNamed_eq_nil distinct.1]
      · rw [if_neg, ih distinct.2 later]
        intro same
        exact distinct.1 (same ▸ List.mem_map_of_mem later)
  rw [uniqueField, alone]

/-- A record is read back when its components are. -/
theorem read_record {α : Type} {read : List (Option Json) → Option α} {value : α}
    (distinct : (fields.map Prod.fst).Nodup)
    (components : read (fields.map fun field => some field.2) = some value) :
    ((Json.object fields).components? (fields.map Prod.fst) >>= read) = some value := by
  have found : (Json.object fields).components? (fields.map Prod.fst) =
      some (fields.map fun field => some field.2) := by
    rw [components?, List.mapM_map]
    exact mapM_eq_some_map fun field member => uniqueField_of_mem distinct member
  rw [found]
  exact components

/-- A field nests less deeply than the fields together. -/
theorem depth_le_depthOfFields {field : String × Json} (member : field ∈ fields) :
    field.2.depth ≤ depthOfFields fields := by
  induction fields with
  | nil => cases member
  | cons first rest ih =>
    rw [depthOfFields]
    rcases List.mem_cons.mp member with rfl | later
    · exact Nat.le_max_left _ _
    · exact Nat.le_trans (ih later) (Nat.le_max_right _ _)

/-- What stands in the record of an alternative nests less deeply. -/
theorem depth_le_of_tagged {name : String} {levels : Nat}
    (enough : (tagged name (.object fields)).depth ≤ levels + 1) (field : String × Json)
    (member : field ∈ fields) : field.2.depth ≤ levels := by
  have inside := depth_le_depthOfFields member
  simp only [tagged, depth, depthOfFields] at enough
  omega

end Json

namespace Codec

@[simp]
theorem required_some {α : Type} [Codec α] (json : Json) :
    (required (some json) : Option α) = decode json := rfl

/-- A list is read back when its items are. -/
@[simp]
theorem decode_encode_list {α : Type} [Codec α] {values : List α}
    (each : ∀ value ∈ values, decode (encode value) = some value) :
    decode (encode values) = some values := by
  change (values.map encode).mapM decode = some values
  have read : values.mapM (decode ∘ encode) = some (values.map id) := mapM_eq_some_map each
  rw [List.mapM_map, read, List.map_id]

/-- A codec that writes no value as `null`, so that none is taken for a missing one. -/
class Solid (α : Type) [Codec α] : Prop where
  encode_ne_null : ∀ value : α, encode value ≠ .null

/-- An optional component is read back when its value is. -/
@[simp]
theorem optional_encode {α : Type} [Codec α] [solid : Solid α] {value : Option α}
    (each : ∀ content ∈ value, decode (encode content) = some content) :
    optional (some (encode value)) = some value := by
  cases value with
  | none => rfl
  | some content =>
    change optional (some (encode content)) = _
    rw [optional, each content rfl]
    · rfl
    · intro missing
      exact solid.encode_ne_null content missing

@[simp]
theorem decode_encode_bool (value : Bool) : decode (encode value) = some value := rfl

@[simp]
theorem decode_encode_string (value : String) : decode (encode value) = some value := rfl

instance : Solid String := ⟨fun _ => Json.noConfusion⟩

/-- A number is read back when it is below the bound. -/
theorem naturalBelow_natCast {bound value : Nat} (below : value < bound) :
    naturalBelow bound (.integer value) = some value :=
  if_pos below

@[simp]
theorem decode_encode_uint16 (value : UInt16) : decode (encode value) = some value := by
  change (naturalBelow 0x10000 (.integer value.toNat)).map UInt16.ofNat = _
  rw [naturalBelow_natCast value.toNat_lt]
  exact congrArg some UInt16.ofNat_toNat

@[simp]
theorem decode_encode_uint32 (value : UInt32) : decode (encode value) = some value := by
  change (naturalBelow 0x100000000 (.integer value.toNat)).map UInt32.ofNat = _
  rw [naturalBelow_natCast value.toNat_lt]
  exact congrArg some UInt32.ofNat_toNat

@[simp]
theorem decode_encode_int64 (value : Int64) : decode (encode value) = some value := by
  change (integerIn _ _ (.integer value.toInt)).map Int64.ofInt = _
  rw [integerIn, if_pos ⟨value.le_toInt, value.toInt_lt⟩]
  exact congrArg some value.ofInt_toInt

end Codec

/-- A vocabulary that lists all its words, each under a name of its own. -/
class LawfulVocabulary (α : Type) [Vocabulary α] : Prop where
  complete : ∀ word : α, word ∈ (Vocabulary.all : List α)
  distinct : ((Vocabulary.all : List α).map Vocabulary.name).Nodup

/-- A word is found by its name. -/
@[simp]
theorem Vocabulary.decode_encode {α : Type} [Vocabulary α] [lawful : LawfulVocabulary α]
    (word : α) : codec.decode (codec.encode word) = some word := by
  change (ofName? (name word) : Option α) = some word
  obtain ⟨found, isFound⟩ : ∃ found, (ofName? (name word) : Option α) = some found :=
    Option.isSome_iff_exists.mp
      (List.find?_isSome.mpr ⟨word, lawful.complete word, decide_eq_true rfl⟩)
  have named : name found = name word := by simpa using List.find?_some isFound
  rw [isFound, List.inj_on_of_nodup_map lawful.distinct (lawful.complete found)
    (lawful.complete word) named]

instance {α : Type} [Vocabulary α] : @Codec.Solid α Vocabulary.codec :=
  @Codec.Solid.mk α Vocabulary.codec fun _ => Json.noConfusion

instance : LawfulVocabulary Primitive := ⟨by rintro ⟨⟩ <;> decide, by decide⟩
instance : LawfulVocabulary Modifier := ⟨by rintro ⟨⟩ <;> decide, by decide⟩
instance : LawfulVocabulary InheritanceType := ⟨by rintro ⟨⟩ <;> decide, by decide⟩
instance : LawfulVocabulary Multiplicity := ⟨by rintro ⟨⟩ <;> decide, by decide⟩
instance : LawfulVocabulary Operator := ⟨by rintro ⟨⟩ <;> decide, by decide⟩
instance : LawfulVocabulary ClauseKind := ⟨by rintro ⟨⟩ <;> decide, by decide⟩
instance : LawfulVocabulary Verb := ⟨by rintro ⟨⟩ <;> decide, by decide⟩
instance : LawfulVocabulary ServiceMultiplicity := ⟨by rintro ⟨⟩ <;> decide, by decide⟩
instance : LawfulVocabulary SortDirection := ⟨by rintro ⟨⟩ <;> decide, by decide⟩
instance : LawfulVocabulary ValidationKind := ⟨by rintro ⟨⟩ <;> decide, by decide⟩

@[simp]
theorem JoinKind.decode_encode (kind : JoinKind) : decode (encode kind) = some kind := by
  cases kind <;> decide

end DomainLang
