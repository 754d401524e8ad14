import Mathlib.Data.List.Forall2

/-! Lists whose elements are related in pairs. -/
namespace List

variable {α β : Type} {r : α → β → Prop}

/-- If every value has a partner, there is a list of partners, and conversely. -/
theorem exists_forall₂_iff (as : List α) : (∃ bs, Forall₂ r as bs) ↔ ∀ a ∈ as, ∃ b, r a b := by
  induction as with
  | nil => simp
  | cons a as ih =>
      rw [forall_mem_cons, ← ih]
      constructor
      · intro h
        obtain ⟨bs, h⟩ := h
        cases h with
        | cons hHead hTail => exact ⟨⟨_, hHead⟩, ⟨_, hTail⟩⟩
      · intro h
        obtain ⟨⟨b, hHead⟩, ⟨bs, hTail⟩⟩ := h
        exact ⟨b :: bs, .cons hHead hTail⟩

/-- An element together with its partner, which stands at the same place. -/
theorem Forall₂.exists_zip {as : List α} {bs : List β} (h : Forall₂ r as bs) {a : α}
    (hm : a ∈ as) : ∃ b, (a, b) ∈ as.zip bs ∧ r a b := by
  induction h with
  | nil => cases hm
  | cons hHead _ ih =>
      rcases mem_cons.mp hm with rfl | hm
      · exact ⟨_, mem_cons_self, hHead⟩
      · obtain ⟨b, hb, hr⟩ := ih hm
        exact ⟨b, mem_cons_of_mem _ hb, hr⟩

theorem Forall₂.exists_right {as : List α} {bs : List β} (h : Forall₂ r as bs) {a : α}
    (hm : a ∈ as) : ∃ b ∈ bs, r a b := by
  obtain ⟨b, hb, hr⟩ := h.exists_zip hm
  exact ⟨b, (of_mem_zip hb).2, hr⟩

/-- What stands beside an element stands beside its partner. -/
theorem Forall₂.exists_zip_right {γ : Type} {as : List α} {bs : List β} {cs : List γ}
    (h : Forall₂ r as bs) {c : γ} {a : α} (hm : (c, a) ∈ cs.zip as) :
    ∃ b, (c, b) ∈ cs.zip bs ∧ r a b := by
  induction h generalizing cs with
  | nil =>
      rw [zip_nil_right] at hm
      cases hm
  | cons hHead _ ih =>
      cases cs with
      | nil => cases hm
      | cons first more =>
          rw [zip_cons_cons] at hm
          rcases mem_cons.mp hm with he | hm
          · cases he
            exact ⟨_, mem_cons_self, hHead⟩
          · obtain ⟨b, hb, hr⟩ := ih hm
            exact ⟨b, mem_cons_of_mem _ hb, hr⟩

theorem Forall₂.exists_left {as : List α} {bs : List β} (h : Forall₂ r as bs) {b : β}
    (hm : b ∈ bs) : ∃ a ∈ as, r a b :=
  @Forall₂.exists_right β α (fun b a => r a b) bs as h.flip b hm

/-- Lists whose elements agree in a property have the same list of it. -/
theorem Forall₂.map_eq {γ : Type} {f : α → γ} {g : β → γ} {as : List α} {bs : List β}
    (h : Forall₂ (fun a b => f a = g b) as bs) : as.map f = bs.map g := by
  induction h with
  | nil => rfl
  | cons hHead _ ih => rw [map_cons, map_cons, hHead, ih]

/-- What holds between partners on the left holds in another form between those on the right. -/
theorem Forall₂.pairwise {p : α → α → Prop} {q : β → β → Prop} {as : List α} {bs : List β}
    (h : Forall₂ r as bs) (hp : as.Pairwise p)
    (hq : ∀ a a' b b', r a b → r a' b' → p a a' → q b b') : bs.Pairwise q := by
  induction h with
  | nil => exact .nil
  | cons hHead hTail ih =>
      obtain ⟨hFirst, hMore⟩ := pairwise_cons.mp hp
      refine pairwise_cons.mpr ⟨fun b hb => ?_, ih hMore⟩
      obtain ⟨a, ha, hr⟩ := hTail.exists_left hb
      exact hq _ _ _ _ hHead hr (hFirst a ha)

/-- Where the list on the right is divided, that on the left is divided too. -/
theorem Forall₂.split_right {as : List α} {before after : List β} {b : β}
    (h : Forall₂ r as (before ++ b :: after)) : ∃ front a back,
      as = front ++ a :: back ∧ r a b ∧ Forall₂ r back after := by
  have hDrop := forall₂_drop_append as before (b :: after) h
  obtain ⟨a, back, hHead, hBack, he⟩ := forall₂_cons_right_iff.mp hDrop
  exact ⟨as.take before.length, a, back, he ▸ (take_append_drop before.length as).symm, hHead,
    hBack⟩

/-- Pairs may be chained. -/
theorem Forall₂.chain {γ : Type} {s : β → γ → Prop} {t : α → γ → Prop} {as : List α} {bs : List β}
    {cs : List γ} (h : Forall₂ r as bs) (h' : Forall₂ s bs cs)
    (ht : ∀ a b c, r a b → s b c → t a c) : Forall₂ t as cs := by
  induction h generalizing cs with
  | nil =>
      cases h'
      exact .nil
  | cons hHead _ ih =>
      cases h' with
      | cons hHead' hTail' => exact .cons (ht _ _ _ hHead hHead') (ih hTail')

/-- Elements beyond the length of the other list find no partner. -/
theorem zip_append_of_length_le {as : List α} {bs : List β} (h : bs.length ≤ as.length)
    (more : List α) : (as ++ more).zip bs = as.zip bs := by
  induction as generalizing bs with
  | nil =>
      rw [length_nil, Nat.le_zero, length_eq_zero_iff] at h
      rw [h, zip_nil_right, zip_nil_right]
  | cons a as ih =>
      cases bs with
      | nil => rfl
      | cons b bs => rw [cons_append, zip_cons_cons, zip_cons_cons, ih (Nat.le_of_succ_le_succ h)]

/-- An element within the length of the other list finds one. -/
theorem exists_mem_zip_append {as : List α} {bs : List β} (h : as.length < bs.length) (a : α)
    (more : List α) : ∃ b, (a, b) ∈ (as ++ a :: more).zip bs := by
  induction as generalizing bs with
  | nil =>
      cases bs with
      | nil => exact absurd h (Nat.lt_irrefl 0)
      | cons b bs => exact ⟨b, mem_cons_self⟩
  | cons first as ih =>
      cases bs with
      | nil => exact absurd h (Nat.not_lt_zero _)
      | cons b bs =>
          obtain ⟨found, hm⟩ := ih (Nat.lt_of_succ_lt_succ h)
          exact ⟨found, mem_cons_of_mem _ hm⟩

end List
