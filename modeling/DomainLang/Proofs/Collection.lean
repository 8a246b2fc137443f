import DomainLang.Collection.Repetition
import Mathlib.Data.List.Nodup
import Mathlib.Data.List.Basic
import Mathlib.Data.List.Forall2
import Mathlib.Data.List.Sigma

/-!
# First occurrences, repetitions and lookups

`keepFirst` keeps the first item of each key and no two with one key; `repeated` is empty
exactly when all keys differ. A list of pairs with distinct keys finds every pair. A list that is
made item by item corresponds to the items (`mapM_eq_ok`), a stable sort keeps the order of items
with one key (`pairwise_mergeSort_of_pairwise`), and a search in an ordered list finds the least
item that is wanted (`find?_eq_some_iff_first`).
-/

namespace DomainLang

/-- A maximum is at least as large as every value that it is taken of. -/
theorem le_foldl_max {values : List Nat} {start value : Nat}
    (among : value ≤ start ∨ value ∈ values) : value ≤ values.foldl max start := by
  induction values generalizing start with
  | nil => simpa using among
  | cons first rest ih =>
    rw [List.foldl_cons]
    apply ih
    rcases among with below | member
    · exact .inl (by omega)
    · rcases List.mem_cons.mp member with rfl | later
      · exact .inl (by omega)
      · exact .inr later

section Keys

variable {α κ : Type} [DecidableEq κ] {key : α → κ} {items : List α} {item : α}

theorem keepFirst_sublist (key : α → κ) (items : List α) : (keepFirst key items).Sublist items := by
  induction items with
  | nil => exact .slnil
  | cons item rest ih => exact (List.filter_sublist.trans ih).cons_cons item

theorem mem_of_mem_keepFirst (member : item ∈ keepFirst key items) : item ∈ items :=
  (keepFirst_sublist key items).subset member

/-- No key is kept twice. -/
theorem nodup_keys_keepFirst (key : α → κ) (items : List α) :
    ((keepFirst key items).map key).Nodup := by
  induction items with
  | nil => exact List.nodup_nil
  | cons first rest ih =>
    simp only [keepFirst, List.map_cons, List.nodup_cons]
    constructor
    · simp
    · exact ih.sublist (List.filter_sublist.map key)

/-- The first item of every key is kept. -/
theorem find?_keepFirst (key : α → κ) (items : List α) (wanted : κ) :
    (keepFirst key items).find? (fun item => key item = wanted) =
      items.find? fun item => key item = wanted := by
  induction items with
  | nil => rfl
  | cons first rest ih =>
    by_cases here : key first = wanted
    · simp [keepFirst, here]
    · rw [keepFirst, List.find?_cons_of_neg (by simpa using here),
        List.find?_cons_of_neg (by simpa using here), ← ih]
      rw [List.find?_filter]
      -- An item with the wanted key does not share the key of the first one.
      congr 1
      funext item
      by_cases found : key item = wanted
      · have kept : wanted ≠ key first := fun equal => here equal.symm
        simp [found, kept]
      · simp [found]

/-- An item is kept exactly when it is the first one with its key. -/
theorem mem_keepFirst_iff :
    item ∈ keepFirst key items ↔ items.find? (fun other => key other = key item) = some item := by
  rw [← find?_keepFirst]
  constructor
  · intro member
    cases found : (keepFirst key items).find? fun other => key other = key item with
    | none => simpa using List.find?_eq_none.mp found item member
    | some other =>
      have same : key other = key item := by simpa using List.find?_some found
      rw [List.inj_on_of_nodup_map (nodup_keys_keepFirst key items)
        (List.mem_of_find?_eq_some found) member same]
  · exact List.mem_of_find?_eq_some

/-- If items are their own keys, each of them is kept. -/
theorem mem_keepFirst_id {key : κ} {keys : List κ} : key ∈ keepFirst id keys ↔ key ∈ keys := by
  refine ⟨mem_of_mem_keepFirst, fun member => ?_⟩
  rw [mem_keepFirst_iff]
  cases found : keys.find? fun other => id other = id key with
  | none => simpa using List.find?_eq_none.mp found key member
  | some other => simpa using List.find?_some found

/-- With distinct keys nothing is dropped. -/
theorem keepFirst_eq_self (distinct : (items.map key).Nodup) : keepFirst key items = items := by
  induction items with
  | nil => rfl
  | cons first rest ih =>
    simp only [List.map_cons, List.nodup_cons, List.mem_map, not_exists, not_and] at distinct
    rw [keepFirst, ih distinct.2]
    congr 1
    rw [List.filter_eq_self]
    intro other member
    simpa using distinct.1 other member

/-- Items with distinct keys are kept when they come first. -/
theorem mem_keepFirst_append_left {others : List α} (distinct : (items.map key).Nodup)
    (member : item ∈ items) : item ∈ keepFirst key (items ++ others) := by
  rw [← keepFirst_eq_self distinct, mem_keepFirst_iff] at member
  rw [mem_keepFirst_iff, List.find?_append, member]
  rfl

theorem keepFirst_map {β : Type} (key : β → κ) (image : α → β) (items : List α) :
    keepFirst key (items.map image) =
      (keepFirst (fun item => key (image item)) items).map image := by
  induction items with
  | nil => rfl
  | cons item rest ih =>
    rw [List.map_cons, keepFirst, ih, List.filter_map, keepFirst, List.map_cons]
    rfl

/-- How often a key is used. -/
theorem countP_key (key : α → κ) (items : List α) (wanted : κ) :
    items.countP (fun other => key other = wanted) = (items.map key).count wanted := by
  rw [List.count, List.countP_map]
  rfl

/-- Nothing is repeated exactly when all keys differ. -/
theorem repeated_eq_nil_iff : repeated key items = [] ↔ (items.map key).Nodup := by
  simp only [repeated, List.filter_eq_nil_iff, decide_eq_true_eq, countP_key, Nat.not_lt,
    List.nodup_iff_count_le_one]
  constructor
  · intro atMost found
    by_cases member : found ∈ items.map key
    · obtain ⟨item, inside, rfl⟩ := List.mem_map.mp member
      exact atMost item inside
    · simp [List.count_eq_zero_of_not_mem member]
  · intro atMost item _
    exact atMost (key item)

/-- An item with a key of its own is all that is found by the key. -/
theorem filter_eq_singleton (distinct : (items.map key).Nodup) (member : item ∈ items) :
    items.filter (fun other => key other = key item) = [item] := by
  induction items with
  | nil => cases member
  | cons first rest ih =>
    rw [List.map_cons, List.nodup_cons] at distinct
    rcases List.mem_cons.mp member with rfl | later
    · rw [List.filter_cons_of_pos (by simp), List.filter_eq_nil_iff.mpr]
      intro other among
      simp only [decide_eq_true_eq]
      exact fun same => distinct.1 (same ▸ List.mem_map_of_mem among)
    · have apart : key first ≠ key item :=
        fun same => distinct.1 (same ▸ List.mem_map_of_mem later)
      rw [List.filter_cons_of_neg (by simpa using apart), ih distinct.2 later]

end Keys

/-- A list of pairs with distinct keys finds each of its pairs. -/
theorem lookup_eq_some_of_mem {κ β : Type} [DecidableEq κ] {entries : List (κ × β)}
    (distinct : (entries.map Prod.fst).Nodup) {key : κ} {value : β}
    (member : (key, value) ∈ entries) : entries.lookup key = some value := by
  induction entries with
  | nil => cases member
  | cons entry rest ih =>
    obtain ⟨first, other⟩ := entry
    simp only [List.map_cons, List.nodup_cons] at distinct
    rcases List.mem_cons.mp member with same | later
    · cases same
      simp
    · have apart : key ≠ first := by
        rintro rfl
        exact distinct.1 (List.mem_map_of_mem later)
      rw [List.lookup_cons, beq_eq_false_iff_ne.mpr apart]
      exact ih distinct.2 later

theorem lookup_eq_some_iff_mem {κ β : Type} [DecidableEq κ] {entries : List (κ × β)}
    (distinct : (entries.map Prod.fst).Nodup) {key : κ} {value : β} :
    entries.lookup key = some value ↔ (key, value) ∈ entries := by
  refine ⟨fun found => ?_, lookup_eq_some_of_mem distinct⟩
  obtain ⟨before, after, rfl, -⟩ := List.lookup_eq_some_iff.mp found
  exact List.mem_append_right _ List.mem_cons_self

/-- Every item stands next to its image. -/
theorem mem_zip_map {α β : Type} {items : List α} {image : α → β} {item : α}
    (member : item ∈ items) : (item, image item) ∈ items.zip (items.map image) := by
  induction items with
  | nil => cases member
  | cons first rest ih =>
    rcases List.mem_cons.mp member with rfl | later
    · exact List.mem_cons_self
    · exact List.mem_cons_of_mem _ (ih later)

/-- Every item of a list has a counterpart in a list that corresponds to it. -/
theorem exists_of_mem_left {α β : Type} {related : α → β → Prop} {items : List α}
    {others : List β} (all : List.Forall₂ related items others) {item : α}
    (member : item ∈ items) : ∃ other ∈ others, related item other := by
  induction all with
  | nil => cases member
  | cons here _ ih =>
    rcases List.mem_cons.mp member with rfl | later
    · exact ⟨_, List.mem_cons_self, here⟩
    · obtain ⟨other, among, same⟩ := ih later
      exact ⟨other, List.mem_cons_of_mem _ among, same⟩

/-- The same from the other side. -/
theorem exists_of_mem_right {α β : Type} {related : α → β → Prop} {items : List α}
    {others : List β} (all : List.Forall₂ related items others) {other : β}
    (member : other ∈ others) : ∃ item ∈ items, related item other :=
  exists_of_mem_left all.flip member

section Results

variable {ε α β : Type}

theorem bind_eq_ok {result : Except ε α} {next : α → Except ε β} {value : β} :
    (result >>= next) = .ok value ↔ ∃ first, result = .ok first ∧ next first = .ok value := by
  cases result <;> simp [bind, Except.bind]

theorem pure_eq_ok {value other : α} : (pure value : Except ε α) = .ok other ↔ value = other := by
  simp [pure, Except.pure]

/-- A list is made of results exactly when each of them is. -/
theorem mapM_eq_ok {make : α → Except ε β} {items : List α} {results : List β} :
    items.mapM make = .ok results ↔
      List.Forall₂ (fun item result => make item = .ok result) items results := by
  induction items generalizing results with
  | nil =>
    rw [List.mapM_nil, pure_eq_ok, List.forall₂_nil_left_iff]
    exact eq_comm
  | cons item items ih =>
    simp only [List.mapM_cons, bind_eq_ok, pure_eq_ok, ih,
      List.forall₂_cons_left_iff]
    constructor
    · rintro ⟨first, made, rest, others, rfl⟩
      exact ⟨first, rest, made, others, rfl⟩
    · rintro ⟨first, rest, made, others, rfl⟩
      exact ⟨first, made, rest, others, rfl⟩

/-- What results take over from the items they are made of. -/
theorem map_eq_of_mapM {κ : Type} {make : α → Except ε β} {items : List α} {results : List β}
    {field : β → κ} {key : α → κ} (made : items.mapM make = .ok results)
    (each : ∀ item ∈ items, ∀ result, make item = .ok result → field result = key item) :
    results.map field = items.map key := by
  rw [mapM_eq_ok] at made
  induction made with
  | nil => rfl
  | cons here _ ih =>
    rw [List.forall_mem_cons] at each
    rw [List.map_cons, List.map_cons, each.1 _ here, ih each.2]

/-- What holds of each result holds of all. -/
theorem forall_of_mapM {make : α → Except ε β} {items : List α} {results : List β}
    {motive : β → Prop} (made : items.mapM make = .ok results)
    (each : ∀ item result, make item = .ok result → motive result) :
    ∀ result ∈ results, motive result := by
  rw [mapM_eq_ok] at made
  induction made with
  | nil => simp
  | cons here _ ih =>
    exact List.forall_mem_cons.mpr ⟨each _ _ here, ih⟩

/-- Results for all items of a list. -/
theorem mapM_eq_some_map {read : α → Option β} {result : α → β} {items : List α}
    (each : ∀ item ∈ items, read item = some (result item)) :
    items.mapM read = some (items.map result) := by
  induction items with
  | nil => rfl
  | cons item rest ih =>
    rw [List.forall_mem_cons] at each
    rw [List.mapM_cons, each.1, ih each.2]
    rfl

end Results

/-- The list of one item is part of the whole. -/
theorem subset_flatMap_of_mem {α β : Type} {lists : α → List β} {items : List α} {item : α}
    (member : item ∈ items) : lists item ⊆ items.flatMap lists :=
  fun _ inside => List.mem_flatMap.mpr ⟨item, member, inside⟩

/-- Lists of bounded length are bounded together. -/
theorem length_flatMap_le {α β : Type} {items : List α} {lists : α → List β} {bound : Nat}
    (each : ∀ item ∈ items, (lists item).length ≤ bound) :
    (items.flatMap lists).length ≤ items.length * bound := by
  induction items with
  | nil => simp
  | cons item items ih =>
    have first := each item List.mem_cons_self
    have rest := ih fun other member => each other (List.mem_cons_of_mem _ member)
    simp only [List.flatMap_cons, List.length_append, List.length_cons, Nat.succ_mul]
    omega

/-- What one item contributes to a list can be told by its owner. -/
theorem filter_flatMap_of_owner {α β γ : Type} [DecidableEq α] [DecidableEq γ] {items : List α}
    (distinct : items.Nodup) {parts : α → List β} {owner : β → γ} {key : α → γ}
    (own : ∀ item ∈ items, ∀ part ∈ parts item, owner part = key item)
    (apart : ∀ first ∈ items, ∀ second ∈ items, key first = key second → first = second)
    {item : α} (member : item ∈ items) :
    (items.flatMap parts).filter (fun part => owner part = key item) = parts item := by
  have kept {other : α} (isItem : other ∈ items) :
      (parts other).filter (fun part => owner part = key item) =
        if other = item then parts other else [] := by
    split
    · next same =>
      subst same
      exact List.filter_eq_self.mpr fun part isPart => by simp [own other isItem part isPart]
    · next different =>
      refine List.filter_eq_nil_iff.mpr fun part isPart => ?_
      rw [own other isItem part isPart, decide_eq_true_iff]
      exact fun same => different (apart other isItem item member same)
  rw [List.filter_flatMap, List.flatMap_congr fun other isItem => kept isItem]
  clear own apart kept
  induction items with
  | nil => cases member
  | cons first rest ih =>
    rw [List.nodup_cons] at distinct
    rw [List.flatMap_cons]
    rcases List.mem_cons.mp member with rfl | later
    · have none : (rest.flatMap fun other => if other = item then parts other else []) = [] := by
        refine List.flatMap_eq_nil_iff.mpr fun other isOther => if_neg ?_
        rintro rfl
        exact distinct.1 isOther
      rw [none, if_pos rfl, List.append_nil]
    · have different : first ≠ item := by
        rintro rfl
        exact distinct.1 later
      rw [if_neg different, List.nil_append, ih distinct.2 later]

/-- Items are told apart by their group and by what tells them apart there. -/
theorem nodup_flatMap_mk {γ δ : Type} {groups : List γ} (distinct : groups.Nodup)
    {members : γ → List δ} (each : ∀ group, (members group).Nodup) :
    (groups.flatMap fun group => (members group).map (Prod.mk group)).Nodup := by
  refine List.nodup_flatMap.mpr ⟨fun group _ => ?_, distinct.imp fun different => ?_⟩
  · exact (each group).map fun _ _ same => (Prod.mk.inj same).2
  · simp only [Function.onFun, List.disjoint_left, List.mem_map]
    rintro _ ⟨_, -, rfl⟩ ⟨_, -, same⟩
    exact different (Prod.mk.inj same).1.symm

/-- A list in terms of its positions. -/
theorem flatMap_range_getD {α β : Type} [Inhabited α] (items : List α) (parts : α → List β) :
    ((List.range items.length).flatMap fun position => parts (items.getD position default)) =
      items.flatMap parts := by
  induction items with
  | nil => rfl
  | cons item rest ih =>
    rw [List.length_cons, List.range_succ_eq_map, List.flatMap_cons, List.flatMap_map,
      List.flatMap_cons, ← ih]
    rfl

/-- What is found item by item is found position by position. -/
theorem flatMap_range_getElem? {α β : Type} (items : List α) (rule : α → List β) :
    (List.range items.length).flatMap (fun position => items[position]?.elim [] rule) =
      items.flatMap rule := by
  induction items with
  | nil => rfl
  | cons item items ih => simp [List.range_succ_eq_map, List.flatMap_map, ih]

/-- Sorting gives the one arrangement in which the keys increase, if there is one. -/
theorem mergeSort_eq_of_perm {α : Type} {key : α → Nat} {items arranged : List α}
    (perm : items.Perm arranged) (increasing : (arranged.map key).Pairwise (· < ·)) :
    (items.mergeSort fun first second => key first ≤ key second) = arranged := by
  have sorted : (items.mergeSort fun first second => key first ≤ key second).Pairwise
      fun first second => decide (key first ≤ key second) = true := by
    refine List.pairwise_mergeSort ?_ ?_ items
    · intro first second third one other
      exact decide_eq_true (Nat.le_trans (of_decide_eq_true one) (of_decide_eq_true other))
    · intro first second
      simpa using Nat.le_total _ _
  have permuted := (items.mergeSort_perm fun first second => key first ≤ key second).trans perm
  refine permuted.eq_of_pairwise ?_ sorted
    ((List.pairwise_map.mp increasing).imp fun less => decide_eq_true (Nat.le_of_lt less))
  intro first second isFirst isSecond one other
  exact List.inj_on_of_nodup_map (increasing.imp Nat.ne_of_lt) (permuted.mem_iff.mp isFirst)
    isSecond (Nat.le_antisymm (of_decide_eq_true one) (of_decide_eq_true other))

/-- Sorting keeps the order of items whose keys are the same. -/
theorem pairwise_mergeSort_of_pairwise {α : Type} {key : α → Nat} {precedes : α → α → Prop}
    {items : List α} (ordered : items.Pairwise precedes) :
    (items.mergeSort fun first second => key first ≤ key second).Pairwise fun first second =>
      key first < key second ∨ key first = key second ∧ precedes first second := by
  -- Every item is sorted together with its position.
  rw [← List.mergeSort_zipIdx, List.pairwise_map]
  have sorted := List.pairwise_mergeSort
    (List.zipIdxLE_trans fun first second third (one : decide (key first ≤ key second) = true)
      (other : decide (key second ≤ key third) = true) => by simp at *; omega)
    (List.zipIdxLE_total fun first second => by simpa using Nat.le_total (key first) (key second))
    items.zipIdx
  have perm := items.zipIdx.mergeSort_perm
    (List.zipIdxLE fun first second => decide (key first ≤ key second))
  have apart := ((perm.map Prod.snd).nodup_iff.mpr (List.nodup_zipIdx_map_snd items))
  refine (sorted.and (List.pairwise_map.mp apart)).imp_of_mem ?_
  rintro ⟨first, i⟩ ⟨second, j⟩ isFirst isSecond ⟨le, different⟩
  obtain ⟨_, firstAt⟩ := List.getElem?_eq_some_iff.mp
    (List.mem_zipIdx_iff_getElem?.mp (perm.mem_iff.mp isFirst))
  obtain ⟨_, secondAt⟩ := List.getElem?_eq_some_iff.mp
    (List.mem_zipIdx_iff_getElem?.mp (perm.mem_iff.mp isSecond))
  simp only [List.zipIdxLE, decide_eq_true_eq] at le different firstAt secondAt ⊢
  split at le
  · split at le
    · have less : i < j := Nat.lt_of_le_of_ne (of_decide_eq_true le) different
      rw [← firstAt, ← secondAt] at *
      exact .inr ⟨by omega, List.pairwise_iff_getElem.mp ordered i j _ _ less⟩
    · exact .inl (by omega)
  · cases le

/-- In an ordered list, what is found first goes before all others that could be found. -/
theorem find?_eq_some_iff_first {α : Type} {precedes : α → α → Prop} {items : List α}
    (ordered : items.Pairwise precedes)
    (asymm : ∀ first second, precedes first second → ¬ precedes second first)
    {wanted : α → Bool} {item : α} :
    items.find? wanted = some item ↔ item ∈ items ∧ wanted item = true ∧
      ∀ other ∈ items, wanted other = true → other = item ∨ precedes item other := by
  have first {item : α} (found : items.find? wanted = some item) :
      item ∈ items ∧ wanted item = true ∧
        ∀ other ∈ items, wanted other = true → other = item ∨ precedes item other := by
    obtain ⟨isWanted, before, after, rfl, unwanted⟩ := List.find?_eq_some_iff_append.mp found
    refine ⟨by simp, isWanted, fun other member also => ?_⟩
    rcases List.mem_append.mp member with earlier | later
    · exact absurd (unwanted other earlier) (by simp [also])
    · rcases List.mem_cons.mp later with rfl | later
      · exact .inl rfl
      · exact .inr (List.rel_of_pairwise_cons (List.pairwise_append.mp ordered).2.1 later)
  refine ⟨first, fun ⟨member, isWanted, least⟩ => ?_⟩
  obtain ⟨found, isFound⟩ := Option.isSome_iff_exists.mp
    (List.find?_isSome.mpr ⟨item, member, isWanted⟩)
  obtain ⟨isMember, foundWanted, leastFound⟩ := first isFound
  rcases least found isMember foundWanted with rfl | precedes
  · exact isFound
  · rcases leastFound item member isWanted with rfl | also
    · exact isFound
    · exact absurd also (asymm _ _ precedes)

/-- When the list of one source grows, the first match among all lists stays or becomes one of
the added items. -/
theorem find?_flatMap_gain {α β : Type} [DecidableEq α] {own grown : α → List β} {target : α}
    {added : List β}
    (gains : ∀ source, grown source = own source ++ if source = target then added else [])
    (sources : List α) (test : β → Bool) :
    (sources.flatMap grown).find? test = (sources.flatMap own).find? test ∨
      target ∈ sources ∧ ∃ item ∈ added, (sources.flatMap grown).find? test = some item := by
  induction sources with
  | nil => exact .inl rfl
  | cons source rest ih =>
    simp only [List.flatMap_cons, List.find?_append, gains source]
    cases (own source).find? test with
    | some item => exact .inl rfl
    | none =>
      split
      · next isTarget =>
        cases found : added.find? test with
        | some item =>
          exact .inr ⟨by simp [isTarget], item, List.mem_of_find?_eq_some found, rfl⟩
        | none => exact ih.imp_right fun found => ⟨List.mem_cons_of_mem _ found.1, found.2⟩
      · exact ih.imp_right fun found => ⟨List.mem_cons_of_mem _ found.1, found.2⟩

end DomainLang
