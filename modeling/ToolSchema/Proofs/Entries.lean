import Mathlib.Data.List.Nodup
import ToolSchema.Entries
import ToolSchema.Proofs.Pairs

/-! Lookup in ordered maps. The map of a list of pairs answers with the last
pair of a key, and a list of pairs with distinct keys is its own map. -/
namespace ToolSchema.Entries

variable {α : Type}

@[simp]
theorem keys_nil : keys ([] : Entries α) = [] := rfl

@[simp]
theorem keys_cons (entry : String × α) (more : Entries α) :
    keys (entry :: more) = entry.1 :: keys more := rfl

@[simp]
theorem keys_append (first second : Entries α) :
    keys (first ++ second) = keys first ++ keys second :=
  List.map_append

theorem mem_keys {entries : Entries α} {entry : String × α} (h : entry ∈ entries) :
    entry.1 ∈ entries.keys :=
  List.mem_map_of_mem h

theorem keys_zip {names : List String} {values : List α} (h : names.length = values.length) :
    keys (names.zip values) = names :=
  List.map_fst_zip (Nat.le_of_eq h)

@[simp]
theorem get?_nil (key : String) : get? ([] : Entries α) key = none := rfl

theorem get?_cons (entry : String × α) (more : Entries α) (key : String) :
    get? (entry :: more) key = if entry.1 = key then some entry.2 else get? more key := by
  by_cases he : entry.1 = key <;> simp [get?, he]

/-- The first map answers, and the second one only where the first has no answer. -/
theorem get?_append (first second : Entries α) (key : String) :
    get? (first ++ second) key = (get? first key).or (get? second key) := by
  induction first with
  | nil => simp
  | cons entry more ih =>
      rw [List.cons_append, get?_cons, get?_cons, ih]
      split <;> simp

theorem get?_isSome_iff (entries : Entries α) (key : String) :
    (get? entries key).isSome = true ↔ key ∈ entries.keys := by
  simp [get?, keys]

theorem get?_eq_none_iff (entries : Entries α) (key : String) :
    get? entries key = none ↔ key ∉ entries.keys := by
  rw [← get?_isSome_iff]
  simp

theorem hasKey_iff (entries : Entries α) (key : String) :
    hasKey entries key = true ↔ key ∈ entries.keys := by
  simp [hasKey, keys]

theorem mem_of_get? {entries : Entries α} {key : String} {value : α}
    (h : get? entries key = some value) : (key, value) ∈ entries := by
  obtain ⟨entry, hFound, rfl⟩ := Option.map_eq_some_iff.mp h
  have hKey : entry.1 = key := by simpa using List.find?_some hFound
  subst hKey
  exact List.mem_of_find?_eq_some hFound

/-- With distinct keys every entry is the one that lookup finds. -/
theorem get?_eq_some_iff {entries : Entries α} (hDistinct : entries.keys.Nodup)
    (key : String) (value : α) :
    get? entries key = some value ↔ (key, value) ∈ entries := by
  refine ⟨mem_of_get?, fun hm => ?_⟩
  induction entries with
  | nil => cases hm
  | cons entry more ih =>
      rw [keys_cons, List.nodup_cons] at hDistinct
      rw [get?_cons]
      rcases List.mem_cons.mp hm with rfl | hm
      · simp
      · have hne : entry.1 ≠ key := fun he => hDistinct.1 (he ▸ mem_keys hm)
        rw [if_neg hne]
        exact ih hDistinct.2 hm

/-- An insertion changes the answer for its own key alone. -/
@[simp]
theorem get?_insert (entries : Entries α) (key other : String) (value : α) :
    get? (insert entries key value) other =
      if key = other then some value else get? entries other := by
  induction entries with
  | nil => simp [insert, get?_cons]
  | cons entry more ih =>
      by_cases he : entry.1 = key
      · simp only [insert, if_pos he, get?_cons]
        subst he
        split <;> rfl
      · rw [insert, if_neg he, get?_cons, get?_cons, ih]
        by_cases ho : entry.1 = other
        · rw [if_pos ho, if_neg (ho ▸ Ne.symm he), if_pos ho]
        · rw [if_neg ho, if_neg ho]

/-- The last pair of a key decides, and without one the old entry stays. -/
theorem get?_insertAll (entries : Entries α) (pairs : List (String × α)) (key : String) :
    get? (insertAll entries pairs) key = (get? pairs.reverse key).or (get? entries key) := by
  induction pairs generalizing entries with
  | nil => simp [insertAll]
  | cons pair more ih =>
      change get? (insertAll (insert entries pair.1 pair.2) more) key = _
      rw [ih, get?_insert, List.reverse_cons, get?_append, get?_cons]
      cases get? more.reverse key with
      | some value => simp
      | none => by_cases hk : pair.1 = key <;> simp [hk]

theorem get?_ofPairs (pairs : List (String × α)) (key : String) :
    get? (ofPairs pairs) key = get? pairs.reverse key := by
  simp [ofPairs, get?_insertAll]

theorem mem_keys_ofPairs (pairs : List (String × α)) (key : String) :
    key ∈ (ofPairs pairs).keys ↔ key ∈ keys pairs := by
  rw [← get?_isSome_iff, get?_ofPairs, get?_isSome_iff]
  simp [keys]

theorem mem_keys_ofPairs_zip {β : Type} {pairs : List (String × α)} {values : List β}
    (h : pairs.length = values.length) (key : String) :
    key ∈ (ofPairs ((keys pairs).zip values)).keys ↔ key ∈ keys pairs := by
  rw [mem_keys_ofPairs, keys_zip (by simpa [keys] using h)]

theorem mem_keys_insertAll (entries : Entries α) (pairs : List (String × α)) (key : String) :
    key ∈ (insertAll entries pairs).keys ↔ key ∈ entries.keys ∨ key ∈ keys pairs := by
  rw [← get?_isSome_iff, get?_insertAll, Option.isSome_or, Bool.or_eq_true, get?_isSome_iff,
    get?_isSome_iff, or_comm]
  simp [keys]

/-- Maps whose entries are related one by one give related answers. -/
theorem get?_of_forall₂ {β : Type} {r : String × α → β → Prop} {first : Entries α}
    {second : Entries β}
    (h : List.Forall₂ (fun a b => a.1 = b.1 ∧ r a b.2) first second) {key : String} {value : β}
    (hGet : second.get? key = some value) : ∃ item, first.get? key = some item ∧ r (key, item) value := by
  induction h with
  | nil => cases hGet
  | @cons a b _ _ hHead _ ih =>
      obtain ⟨hKey, hValue⟩ := hHead
      rw [get?_cons] at hGet ⊢
      by_cases he : b.1 = key
      · rw [if_pos he] at hGet
        cases hGet
        subst he
        rw [if_pos hKey, ← hKey]
        exact ⟨a.2, rfl, hValue⟩
      · rw [if_neg he] at hGet
        rw [if_neg (hKey ▸ he)]
        exact ih hGet

/-- The value of a key comes from the last pair with this key. -/
theorem get?_ofPairs_zip {β : Type} {r : String × α → β → Prop} {pairs : List (String × α)}
    {values : List β} (h : List.Forall₂ r pairs values) {key : String} {value : β}
    (hGet : (ofPairs ((keys pairs).zip values)).get? key = some value) :
    ∃ item, (ofPairs pairs).get? key = some item ∧ r (key, item) value := by
  rw [get?_ofPairs] at hGet ⊢
  have hZip : List.Forall₂ (fun a b => a.1 = b.1 ∧ r a b.2) pairs ((keys pairs).zip values) := by
    clear hGet
    induction h with
    | nil => exact .nil
    | cons hHead _ ih => exact .cons ⟨rfl, hHead⟩ ih
  exact get?_of_forall₂ (List.forall₂_reverse_iff.mpr hZip) hGet

/-- An erasure takes the answer of its own key alone. -/
theorem get?_erase (entries : Entries α) (key other : String) :
    get? (erase entries key) other = if key = other then none else get? entries other := by
  induction entries with
  | nil => simp [erase]
  | cons entry more ih =>
      have hStep : get? (erase (entry :: more) key) other =
          if entry.1 = key then get? (erase more key) other
          else get? (entry :: erase more key) other := by
        by_cases he : entry.1 = key <;> simp [erase, he]
      rw [hStep, get?_cons, get?_cons, ih]
      by_cases he : entry.1 = key <;> by_cases ho : entry.1 = other <;> by_cases hk : key = other <;>
        simp_all

theorem insert_of_not_mem {entries : Entries α} {key : String} (value : α)
    (h : key ∉ entries.keys) : insert entries key value = entries ++ [(key, value)] := by
  induction entries with
  | nil => rfl
  | cons entry more ih =>
      rw [keys_cons, List.mem_cons, not_or] at h
      rw [insert, if_neg (Ne.symm h.1), ih h.2, List.cons_append]

/-- New keys are appended in their order. -/
theorem insertAll_of_nodup {entries pairs : Entries α}
    (hDistinct : (entries ++ pairs).keys.Nodup) : insertAll entries pairs = entries ++ pairs := by
  induction pairs generalizing entries with
  | nil => simp [insertAll]
  | cons pair more ih =>
      have hNew : pair.1 ∉ entries.keys := by
        rw [keys_append, keys_cons] at hDistinct
        exact fun hm => (List.nodup_append.mp hDistinct).2.2 _ hm _ List.mem_cons_self rfl
      change insertAll (insert entries pair.1 pair.2) more = _
      rw [insert_of_not_mem pair.2 hNew, ih (by simpa using hDistinct)]
      simp

theorem ofPairs_of_nodup {pairs : List (String × α)} (hDistinct : (keys pairs).Nodup) :
    ofPairs pairs = pairs :=
  @insertAll_of_nodup α [] pairs hDistinct

/-- Values may be changed before or after an insertion. -/
theorem insert_map {β : Type} (f : α → β) (entries : Entries α) (key : String) (value : α) :
    insert (entries.map (Prod.map id f)) key (f value) =
      (insert entries key value).map (Prod.map id f) := by
  induction entries with
  | nil => rfl
  | cons entry more ih =>
      by_cases he : entry.1 = key
      · simp [insert, he]
      · simp [insert, he, ih]

/-- Values may be changed before or after the pairs are put together. -/
theorem ofPairs_map {β : Type} (f : α → β) (pairs : List (String × α)) :
    ofPairs (pairs.map (Prod.map id f)) = (ofPairs pairs).map (Prod.map id f) := by
  have hInsertAll (entries : Entries α) :
      insertAll (entries.map (Prod.map id f)) (pairs.map (Prod.map id f)) =
        (insertAll entries pairs).map (Prod.map id f) := by
    induction pairs generalizing entries with
    | nil => rfl
    | cons pair more ih =>
        change insertAll (insert (entries.map _) pair.1 (f pair.2)) (more.map _) = _
        rw [insert_map, ih]
        rfl
  exact hInsertAll []

/-- The entries of these names, in the order of the names. -/
def select (entries : Entries α) (names : List String) : Entries α :=
  names.filterMap fun name => (entries.get? name).map (name, ·)

theorem select_append (entries : Entries α) (first second : List String) :
    entries.select (first ++ second) = entries.select first ++ entries.select second :=
  List.filterMap_append

theorem mem_select (entries : Entries α) (names : List String) (name : String) (value : α) :
    (name, value) ∈ entries.select names ↔ name ∈ names ∧ entries.get? name = some value := by
  simp [select]

/-- A selection has the names that have an answer, in the order of the names. -/
theorem keys_select (entries : Entries α) (names : List String) :
    (entries.select names).keys = names.filter (· ∈ entries.keys) := by
  induction names with
  | nil => rfl
  | cons name more ih =>
      rw [select, List.filterMap_cons]
      cases hGet : entries.get? name with
      | none =>
          have hAbsent := (get?_eq_none_iff _ _).mp hGet
          rw [List.filter_cons_of_neg (by simpa using hAbsent), ← ih]
          rfl
      | some value =>
          have hPresent : name ∈ entries.keys := mem_keys (mem_of_get? hGet)
          rw [List.filter_cons_of_pos (by simpa using hPresent), ← ih]
          rfl

/-- A selection answers for its own names as the map does. -/
theorem get?_select (entries : Entries α) {names : List String} (hDistinct : names.Nodup)
    {name : String} (h : name ∈ names) : (entries.select names).get? name = entries.get? name := by
  have hKeys : (entries.select names).keys.Nodup := by
    rw [keys_select]
    exact hDistinct.sublist List.filter_sublist
  apply Option.ext
  intro value
  rw [get?_eq_some_iff hKeys, mem_select, and_iff_right h]

/-- Values without their names go back under the same names if no name is left
out before another. -/
theorem zip_filterMap_get? {entries : Entries α} {names : List String}
    (h : names.Pairwise fun earlier later => later ∈ entries.keys → earlier ∈ entries.keys) :
    names.zip (names.filterMap entries.get?) = entries.select names := by
  induction names with
  | nil => rfl
  | cons name more ih =>
      rw [List.pairwise_cons] at h
      rw [select, List.filterMap_cons, List.filterMap_cons]
      cases hGet : entries.get? name with
      | none =>
          have hAbsent := (get?_eq_none_iff _ _).mp hGet
          have hNone : more.filterMap entries.get? = [] :=
            List.filterMap_eq_nil_iff.mpr fun later hm =>
              (get?_eq_none_iff _ _).mpr fun hLater => hAbsent (h.1 later hm hLater)
          have hEmpty : entries.select more = [] := by
            rw [← ih h.2, hNone, List.zip_nil_right]
          rw [hNone, List.zip_nil_right]
          exact hEmpty.symm
      | some value =>
          rw [List.zip_cons_cons, ih h.2]
          rfl

end ToolSchema.Entries
