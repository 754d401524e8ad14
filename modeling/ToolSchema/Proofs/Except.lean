import Mathlib.Data.List.Forall2

/-! What the success or the failure of a sequence of computations says about
the single computations. -/
namespace Except

variable {ε α β : Type}

theorem ok_bind (a : α) (f : α → Except ε β) : (.ok a >>= f) = f a := rfl

/-- A sequence succeeds with what its second step gives for the result of the first. -/
theorem bind_eq_ok_iff {x : Except ε α} {f : α → Except ε β} {b : β} :
    (x >>= f) = .ok b ↔ ∃ a, x = .ok a ∧ f a = .ok b := by
  cases x <;> simp [bind, Except.bind]

/-- The failure of a sequence is that of its first step, or that of the second one after the first
has succeeded. -/
theorem bind_eq_error_iff {x : Except ε α} {f : α → Except ε β} {e : ε} :
    (x >>= f) = .error e ↔ x = .error e ∨ ∃ a, x = .ok a ∧ f a = .error e := by
  cases x <;> simp [bind, Except.bind]

theorem pure_eq_ok_iff {a b : α} : (pure a : Except ε α) = .ok b ↔ a = b := by
  simp [pure, Except.pure]

theorem toOption_eq_some_iff {x : Except ε α} {a : α} : x.toOption = some a ↔ x = .ok a := by
  cases x <;> simp [Except.toOption]

theorem map_eq_error_iff {x : Except ε α} {f : α → β} {e : ε} :
    x.map f = .error e ↔ x = .error e := by
  cases x <;> simp [Except.map]

theorem mapError_eq_ok_iff {δ : Type} {x : Except ε α} {f : ε → δ} {a : α} :
    x.mapError f = .ok a ↔ x = .ok a := by
  cases x with
  | error e =>
      constructor
      · intro h
        cases h
      · intro h
        cases h
  | ok b =>
      constructor
      · intro h
        cases h
        rfl
      · intro h
        cases h
        rfl

theorem mapError_bind {δ : Type} (x : Except ε α) (f : α → Except ε β) (g : ε → δ) :
    (x >>= f).mapError g = x.mapError g >>= fun a => (f a).mapError g := by
  cases x <;> rfl

theorem mapError_eq_error_iff {δ : Type} {x : Except ε α} {f : ε → δ} {d : δ} :
    x.mapError f = .error d ↔ ∃ e, x = .error e ∧ f e = d := by
  cases x <;> simp [Except.mapError]

/-- All steps succeed, each with its own result. -/
theorem mapM_eq_ok_iff {f : α → Except ε β} {items : List α} {results : List β} :
    items.mapM f = .ok results ↔
      List.Forall₂ (fun item result => f item = .ok result) items results := by
  induction items generalizing results with
  | nil =>
      rw [List.mapM_nil, pure_eq_ok_iff, List.forall₂_nil_left_iff]
      exact eq_comm
  | cons item items ih =>
      rw [List.mapM_cons, bind_eq_ok_iff, List.forall₂_cons_left_iff]
      apply exists_congr
      intro first
      rw [bind_eq_ok_iff]
      constructor
      · intro h
        obtain ⟨hFirst, more, hMore, h⟩ := h
        exact ⟨more, hFirst, ih.mp hMore, (pure_eq_ok_iff.mp h).symm⟩
      · intro h
        obtain ⟨more, hFirst, hMore, h⟩ := h
        exact ⟨hFirst, more, ih.mpr hMore, pure_eq_ok_iff.mpr h.symm⟩

/-- One of the steps fails. -/
theorem exists_of_mapM_eq_error {f : α → Except ε β} {items : List α} {e : ε}
    (h : items.mapM f = .error e) : ∃ item ∈ items, f item = .error e := by
  induction items with
  | nil => cases h
  | cons item items ih =>
      rw [List.mapM_cons] at h
      rcases bind_eq_error_iff.mp h with h | ⟨_, _, h⟩
      · exact ⟨item, .head _, h⟩
      · rcases bind_eq_error_iff.mp h with h | ⟨_, _, h⟩
        · obtain ⟨other, hm, h⟩ := ih h
          exact ⟨other, .tail _ hm, h⟩
        · cases h

/-- What every step preserves holds at the end. -/
theorem foldlM_invariant {f : β → α → Except ε β} {p : β → Prop}
    (hStep : ∀ state item state', p state → f state item = .ok state' → p state') {items : List α}
    {start finish : β} (hStart : p start) (h : items.foldlM f start = .ok finish) : p finish := by
  induction items generalizing start with
  | nil =>
      cases h
      exact hStart
  | cons item items ih =>
      rw [List.foldlM_cons] at h
      obtain ⟨mid, hFirst, hMore⟩ := bind_eq_ok_iff.mp h
      exact ih (hStep start item mid hStart hFirst) hMore

/-- A sequence of steps fails at one of them, after the ones before it. -/
theorem exists_of_foldlM_eq_error {f : β → α → Except ε β} {items : List α} {start : β} {e : ε}
    (h : items.foldlM f start = .error e) : ∃ front item back state,
      items = front ++ item :: back ∧ front.foldlM f start = .ok state ∧ f state item = .error e := by
  induction items generalizing start with
  | nil => cases h
  | cons item items ih =>
      rw [List.foldlM_cons] at h
      rcases bind_eq_error_iff.mp h with h | ⟨mid, hFirst, h⟩
      · exact ⟨[], item, items, start, rfl, rfl, h⟩
      · obtain ⟨front, other, back, state, rfl, hFront, h⟩ := ih h
        refine ⟨item :: front, other, back, state, rfl, ?_, h⟩
        rw [List.foldlM_cons, hFirst]
        exact hFront

/-- The same failure, or results that differ only in what `f` hides. -/
def AgreeUpTo (f : α → β) (x y : Except ε α) : Prop := x.map f = y.map f

section

variable {γ δ : Type} {f : α → β} {g : γ → δ}

theorem AgreeUpTo.refl (x : Except ε α) : AgreeUpTo f x x := rfl

theorem AgreeUpTo.ok {a b : α} (h : f a = f b) : AgreeUpTo f (.ok a : Except ε α) (.ok b) :=
  congrArg Except.ok h

theorem AgreeUpTo.symm {x y : Except ε α} (h : AgreeUpTo f x y) : AgreeUpTo f y x := Eq.symm h

theorem AgreeUpTo.trans {x y z : Except ε α} (h : AgreeUpTo f x y) (h' : AgreeUpTo f y z) :
    AgreeUpTo f x z := Eq.trans h h'

/-- The second steps need to agree only on results that differ in what is hidden. -/
theorem AgreeUpTo.bind {x y : Except ε α} {k l : α → Except ε γ} (h : AgreeUpTo f x y)
    (hNext : ∀ a b, f a = f b → AgreeUpTo g (k a) (l b)) : AgreeUpTo g (x >>= k) (y >>= l) := by
  cases x with
  | error e =>
      cases y with
      | error e' =>
          cases h
          rfl
      | ok b => cases h
  | ok a =>
      cases y with
      | error e' => cases h
      | ok b => exact hNext a b (Except.ok.inj h)

/-- Failures that are renamed in the same way still agree. -/
theorem AgreeUpTo.mapError {x y : Except ε α} (h : AgreeUpTo f x y) (k : ε → δ) :
    AgreeUpTo f (x.mapError k) (y.mapError k) := by
  cases x with
  | error e =>
      cases y with
      | error e' =>
          cases h
          rfl
      | ok b => cases h
  | ok a =>
      cases y with
      | error e' => cases h
      | ok b => exact congrArg Except.ok (Except.ok.inj h)

/-- One of them succeeds if and only if the other does. -/
theorem AgreeUpTo.exists_ok_iff {x y : Except ε α} (h : AgreeUpTo f x y) :
    (∃ a, x = .ok a) ↔ ∃ b, y = .ok b := by
  cases x with
  | error e =>
      cases y with
      | error e' => exact ⟨fun ⟨_, he⟩ => (by cases he), fun ⟨_, he⟩ => (by cases he)⟩
      | ok b => cases h
  | ok a =>
      cases y with
      | error e' => cases h
      | ok b => exact ⟨fun _ => ⟨b, rfl⟩, fun _ => ⟨a, rfl⟩⟩

end

end Except
