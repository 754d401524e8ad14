import Mathlib.Data.List.Forall2
import Mathlib.Data.List.Induction

/-! Lists without repetitions. Equality need not be reflexive here: an element
that differs from itself is kept at every place. -/
namespace List

section

variable {α : Type} [BEq α]

/-- The last element stays unless an element that is kept equals it. -/
theorem eraseDups_concat (as : List α) (a : α) :
    (as ++ [a]).eraseDups =
      if as.eraseDups.any (a == ·) then as.eraseDups else as.eraseDups ++ [a] := by
  induction hLength : as.length using Nat.strongRecOn generalizing as with
  | ind n ih =>
      subst hLength
      cases as with
      | nil => rfl
      | cons first as =>
          have hShorter : (as.filter fun b => !b == first).length < (first :: as).length :=
            Nat.lt_succ_of_le (length_filter_le _ _)
          rw [cons_append, eraseDups_cons, filter_append, eraseDups_cons, any_cons]
          by_cases hFirst : (a == first) = true
          · rw [filter_cons_of_neg (by simpa using hFirst), filter_nil, append_nil, hFirst,
              Bool.true_or, if_pos rfl]
          · rw [filter_cons_of_pos (by simpa using hFirst), filter_nil, ih _ hShorter _ rfl,
              Bool.eq_false_iff.mpr hFirst, Bool.false_or]
            split
            · rfl
            · rw [cons_append]

theorem eraseDups_sublist (as : List α) : as.eraseDups.Sublist as := by
  induction as using reverseRecOn with
  | nil => exact .slnil
  | append_singleton as a ih =>
      rw [eraseDups_concat]
      split
      · exact ih.trans (sublist_append_left _ _)
      · exact ih.append_right _

theorem mem_of_mem_eraseDups {as : List α} {a : α} (h : a ∈ as.eraseDups) : a ∈ as :=
  (eraseDups_sublist as).subset h

theorem eraseDups_ne_nil {as : List α} (h : as ≠ []) : as.eraseDups ≠ [] := by
  obtain ⟨first, more, rfl⟩ := exists_cons_of_ne_nil h
  rw [eraseDups_cons]
  exact cons_ne_nil _ _

/-- Every element is kept, or it equals one that is kept. -/
theorem exists_mem_eraseDups {as : List α} {a : α} (h : a ∈ as) :
    ∃ b ∈ as.eraseDups, a = b ∨ (a == b) = true := by
  induction as using reverseRecOn with
  | nil => cases h
  | append_singleton as last ih =>
      rw [eraseDups_concat]
      split
      · next hLast =>
        rcases mem_append.mp h with hm | hm
        · exact ih hm
        · rw [mem_singleton.mp hm]
          obtain ⟨b, hb, hEq⟩ := any_eq_true.mp hLast
          exact ⟨b, hb, .inr hEq⟩
      · rcases mem_append.mp h with hm | hm
        · obtain ⟨b, hb, hEq⟩ := ih hm
          exact ⟨b, mem_append_left _ hb, hEq⟩
        · exact ⟨a, mem_append_right _ hm, .inl rfl⟩

/-- What equal elements share can be looked for among those that are kept. -/
theorem exists_mem_eraseDups_iff {p : α → Prop} (hp : ∀ a b, (a == b) = true → p a → p b)
    (as : List α) : (∃ a ∈ as.eraseDups, p a) ↔ ∃ a ∈ as, p a := by
  constructor
  · rintro ⟨a, hm, ha⟩
    exact ⟨a, mem_of_mem_eraseDups hm, ha⟩
  · rintro ⟨a, hm, ha⟩
    obtain ⟨b, hb, rfl | hEq⟩ := exists_mem_eraseDups hm
    · exact ⟨a, hb, ha⟩
    · exact ⟨b, hb, hp a b hEq ha⟩

/-- What is left holds no two equal elements. -/
theorem pairwise_eraseDups (as : List α) :
    as.eraseDups.Pairwise fun earlier later => (later == earlier) = false := by
  induction as using reverseRecOn with
  | nil => exact .nil
  | append_singleton as a ih =>
      rw [eraseDups_concat]
      split
      · exact ih
      · next hNew =>
        refine pairwise_append.mpr ⟨ih, pairwise_singleton _ _, fun earlier hm later hLater => ?_⟩
        rw [mem_singleton.mp hLater]
        rw [any_eq_true] at hNew
        exact Bool.eq_false_iff.mpr fun hEq => hNew ⟨earlier, hm, hEq⟩

/-- A list without repetitions stays as it is. -/
theorem eraseDups_of_pairwise {as : List α}
    (h : as.Pairwise fun earlier later => (later == earlier) = false) : as.eraseDups = as := by
  induction as using reverseRecOn with
  | nil => rfl
  | append_singleton as a ih =>
      obtain ⟨hAll, _, hLast⟩ := pairwise_append.mp h
      rw [eraseDups_concat, ih hAll, if_neg]
      rw [any_eq_true]
      rintro ⟨b, hb, hEq⟩
      rw [hLast b hb a mem_cons_self] at hEq
      cases hEq

theorem eraseDups_eraseDups (as : List α) : as.eraseDups.eraseDups = as.eraseDups :=
  eraseDups_of_pairwise (pairwise_eraseDups as)

end

section

variable {α β : Type} [BEq α] [BEq β]

/-- Repetitions may be left out before a function is applied that keeps
equality. -/
theorem eraseDups_append_map [PartialEquivBEq β] {f : α → β}
    (hf : ∀ a a', (a == a') = true → (f a == f a') = true) (bs : List β) (as : List α) :
    (bs ++ as.eraseDups.map f).eraseDups = (bs ++ as.map f).eraseDups := by
  induction as using reverseRecOn with
  | nil => rfl
  | append_singleton as a ih =>
      rw [eraseDups_concat, map_append, map_singleton, ← append_assoc]
      split
      · next hOld =>
        obtain ⟨a', ha', hEq⟩ := any_eq_true.mp hOld
        have hImage : f a' ∈ bs ++ as.map f :=
          mem_append_right _ (mem_map_of_mem (mem_of_mem_eraseDups ha'))
        obtain ⟨b, hb, hSame⟩ := exists_mem_eraseDups hImage
        have hKept : (f a == b) = true := by
          rcases hSame with rfl | hSame
          · exact hf a a' hEq
          · exact BEq.trans (hf a a' hEq) hSame
        rw [eraseDups_concat, if_pos (any_eq_true.mpr ⟨b, hb, hKept⟩), ih]
      · rw [map_append, map_singleton, ← append_assoc, eraseDups_concat, ih, eraseDups_concat]

/-- Only what is kept of two lists matters for what is kept of both together. -/
theorem eraseDups_append_congr [PartialEquivBEq α] {as as' bs bs' : List α}
    (ha : as.eraseDups = as'.eraseDups) (hb : bs.eraseDups = bs'.eraseDups) :
    (as ++ bs).eraseDups = (as' ++ bs').eraseDups := by
  have hRight (front back : List α) :
      (front ++ back.eraseDups).eraseDups = (front ++ back).eraseDups := by
    simpa only [map_id] using eraseDups_append_map (f := id) (fun _ _ h => h) front back
  have hLeft (front back : List α) :
      (front.eraseDups ++ back).eraseDups = (front ++ back).eraseDups := by
    induction back using reverseRecOn with
    | nil => rw [append_nil, append_nil, eraseDups_eraseDups]
    | append_singleton back b ih =>
        rw [← append_assoc, ← append_assoc, eraseDups_concat, eraseDups_concat, ih]
  rw [← hLeft as, ha, hLeft, ← hRight as', hb, hRight]

/-- Lists with the same distinct elements still have them after a function that respects
equality. -/
theorem eraseDups_map_congr [PartialEquivBEq β] {f : α → β}
    (hf : ∀ a a', (a == a') = true → (f a == f a') = true) {as as' : List α}
    (h : as.eraseDups = as'.eraseDups) : (as.map f).eraseDups = (as'.map f).eraseDups := by
  have hImage (as : List α) : (as.eraseDups.map f).eraseDups = (as.map f).eraseDups :=
    eraseDups_append_map hf [] as
  rw [← hImage as, h, hImage]

/-- Of lists with related elements the same places are kept, if related elements are
equal to the same ones. -/
theorem Forall₂.eraseDups_of_beq_eq {r : α → β → Prop}
    (hr : ∀ a b a' b', r a b → r a' b' → (a == a') = (b == b')) {as : List α} {bs : List β}
    (h : Forall₂ r as bs) : Forall₂ r as.eraseDups bs.eraseDups := by
  induction hLength : as.length using Nat.strongRecOn generalizing as bs with
  | ind n ih =>
      subst hLength
      cases h with
      | nil => exact .nil
      | @cons a b as bs hHead hTail =>
          rw [eraseDups_cons, eraseDups_cons]
          refine .cons hHead (ih _ (Nat.lt_succ_of_le (length_filter_le _ _)) ?_ rfl)
          refine rel_filter (fun x y hxy => ?_) hTail
          change (!x == a) = true ↔ (!y == b) = true
          rw [hr x y a b hxy hHead]

/-- Of lists with equal elements the same places are kept. -/
theorem Forall₂.eraseDups [PartialEquivBEq α] {as bs : List α}
    (h : Forall₂ (fun a b => (a == b) = true) as bs) :
    Forall₂ (fun a b => (a == b) = true) as.eraseDups bs.eraseDups :=
  h.eraseDups_of_beq_eq fun _ _ _ _ hab hab' => by rw [BEq.congr_left hab, BEq.congr_right hab']

end

end List
