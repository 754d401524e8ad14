import ToolSchema.Number.Reading

/-! Integers in decimal notation, and reading them back. -/
namespace ToolSchema.Number

theorem isDigit_of_mem_toDigits {n : Nat} {c : Char} (h : c ∈ Nat.toDigits 10 n) :
    c.isDigit = true :=
  Nat.isDigit_of_mem_toDigits (by decide) (by decide) h

theorem ofDigits_toDigits (n : Nat) : ofDigits (Nat.toDigits 10 n) = n :=
  Nat.ofDigitChars_eq_foldl.symm.trans Nat.ofDigitChars_ten_toDigits

/-- Zeros in front do not change the number. -/
theorem ofDigits_zeros (count : Nat) (digits : List Char) :
    ofDigits (List.replicate count '0' ++ digits) = ofDigits digits := by
  rw [ofDigits, List.foldl_append]
  congr 1
  induction count with
  | zero => rfl
  | succ count ih => exact ih

theorem isDigits_toDigits (n : Nat) : isDigits (Nat.toDigits 10 n) = true := by
  rw [isDigits, Bool.and_eq_true, List.all_eq_true, Bool.not_eq_true', List.isEmpty_eq_false_iff]
  exact ⟨Nat.toDigits_ne_nil, fun c => isDigit_of_mem_toDigits⟩

/-- A digit is no sign. -/
theorem splitSign_digit {first : Char} (h : first.isDigit = true) (more : List Char) :
    splitSign (first :: more) = (false, first :: more) := by
  rw [splitSign]
  · intro rest he
    cases he
    exact absurd h (by decide)
  · intro rest he
    cases he
    exact absurd h (by decide)

theorem splitSign_toDigits (n : Nat) :
    splitSign (Nat.toDigits 10 n) = (false, Nat.toDigits 10 n) := by
  obtain ⟨first, more, hDigits⟩ := List.exists_cons_of_ne_nil (@Nat.toDigits_ne_nil n 10)
  rw [hDigits]
  exact splitSign_digit (isDigit_of_mem_toDigits (hDigits ▸ List.mem_cons_self)) more

/-- An integer is written as its digits, after a sign if it is negative. -/
theorem toList_toString (i : Int) :
    (toString i).toList =
      if 0 ≤ i then Nat.toDigits 10 i.toNat else '-' :: Nat.toDigits 10 (-i).toNat := by
  rw [Int.toString_eq_repr, Int.repr_eq_if]
  split
  · exact Nat.toList_repr
  · rw [String.toList_append, Nat.toList_repr]
    rfl

/-- An integer is written with a sign or a digit first, and digits behind it. -/
theorem exists_cons_toString (i : Int) : ∃ first more, (toString i).toList = first :: more ∧
    (first = '-' ∨ first.isDigit = true) ∧ ∀ c ∈ more, c.isDigit = true := by
  rw [toList_toString]
  split
  · cases hDigits : Nat.toDigits 10 i.toNat with
    | nil => exact absurd hDigits Nat.toDigits_ne_nil
    | cons first more =>
        have hAll : ∀ c ∈ first :: more, c.isDigit = true := fun c hm =>
          isDigit_of_mem_toDigits (hDigits ▸ hm)
        rw [List.forall_mem_cons] at hAll
        exact ⟨first, more, rfl, .inr hAll.1, hAll.2⟩
  · exact ⟨'-', _, rfl, .inl rfl, fun c => isDigit_of_mem_toDigits⟩

/-- A sign and digits are read as the integer that they stand for, if it is in range. -/
theorem int64?_eq_some {text digits : List Char} {negative : Bool} {n : Int64}
    (hSign : splitSign text = (negative, digits)) (hDigits : isDigits digits = true)
    (hValue : (if negative then -(ofDigits digits : Int) else ofDigits digits) = n.toInt) :
    int64? text = some n := by
  rw [int64?, hSign]
  dsimp only
  rw [hValue, if_pos ⟨hDigits, n.minValue_le_toInt, n.toInt_le⟩, Int64.ofInt_toInt]

/-- Every integer of 64 bits reads back. -/
theorem int64?_toString (n : Int64) : int64? (toString n.toInt).toList = some n := by
  rw [toList_toString]
  split
  · next hSign =>
    refine int64?_eq_some (splitSign_toDigits _) (isDigits_toDigits _) ?_
    rw [ofDigits_toDigits]
    exact Int.toNat_of_nonneg hSign
  · next hSign =>
    refine int64?_eq_some rfl (isDigits_toDigits _) ?_
    rw [ofDigits_toDigits, if_pos rfl, Int.toNat_of_nonneg (by omega), Int.neg_neg]

end ToolSchema.Number
