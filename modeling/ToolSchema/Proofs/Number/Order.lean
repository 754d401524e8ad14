import Mathlib.Tactic.SplitIfs
import ToolSchema.Proofs.Number.Nearest

/-! Rounding keeps the order of natural numbers, so the numbers that round to the same one lie next
to each other. Beyond the signed integers of 64 bits that is where two integers can be equal in
double precision only. -/
namespace ToolSchema.Binary64

/-! The order of magnitudes -/

theorem div_le_roundQuotient (num den : Nat) : num / den ≤ roundQuotient num den := by
  unfold roundQuotient
  dsimp only
  split_ifs <;> omega

theorem roundQuotient_le_succ (num den : Nat) : roundQuotient num den ≤ num / den + 1 := by
  unfold roundQuotient
  dsimp only
  split_ifs <;> omega

/-- Rounding keeps the order of numerators. -/
theorem roundQuotient_mono {a b : Nat} (h : a ≤ b) (den : Nat) :
    roundQuotient a den ≤ roundQuotient b den := by
  rcases Nat.eq_or_lt_of_le (Nat.div_le_div_right (c := den) h) with hSame | hLess
  · have hA : den * (a / den) + a % den = a := Nat.div_add_mod a den
    have hB : den * (b / den) + b % den = b := Nat.div_add_mod b den
    unfold roundQuotient
    dsimp only
    rw [hSame] at hA ⊢
    have hRest : a % den ≤ b % den := by omega
    split_ifs <;> omega
  · calc roundQuotient a den ≤ a / den + 1 := roundQuotient_le_succ a den
      _ ≤ b / den := hLess
      _ ≤ roundQuotient b den := div_le_roundQuotient b den

/-- The word of the number nearest to a count of units, without the sign and without regard to
overflow. -/
def magnitude (units : Nat) : Nat :=
  lastPlace units * exponentWeight + roundQuotient units (2 ^ lastPlace units)

/-- A number that is scaled fills its significand. -/
theorem le_of_lastPlace {units : Nat} (h : lastPlace units ≠ 0) :
    exponentWeight * 2 ^ lastPlace units ≤ units := by
  unfold lastPlace at h ⊢
  split_ifs at h ⊢ with hSmall
  · exact absurd rfl h
  · have hWeight : exponentWeight = 2 ^ 52 := rfl
    have hNonzero : units ≠ 0 := by omega
    rw [hWeight, ← Nat.pow_add, show 52 + (units.log2 - 52) = units.log2 by omega]
    exact Nat.log2_self_le hNonzero

/-- A rounded significand can reach the next power of two, but not pass it. -/
theorem roundQuotient_lastPlace_le (units : Nat) :
    roundQuotient units (2 ^ lastPlace units) ≤ 2 * exponentWeight :=
  roundQuotient_le (lt_of_lastPlace units)

/-- A rounded significand of a scaled number still fills its bits. -/
theorem le_roundQuotient_lastPlace {units : Nat} (h : lastPlace units ≠ 0) :
    exponentWeight ≤ roundQuotient units (2 ^ lastPlace units) := by
  have hDiv : exponentWeight ≤ units / 2 ^ lastPlace units :=
    (Nat.le_div_iff_mul_le (Nat.two_pow_pos _)).mpr (le_of_lastPlace h)
  exact hDiv.trans (div_le_roundQuotient _ _)

/-- Larger numbers have a last place that is no lower. -/
theorem lastPlace_mono {a b : Nat} (h : a ≤ b) : lastPlace a ≤ lastPlace b := by
  by_contra hMore
  have hPlace : lastPlace b + 1 ≤ lastPlace a := by omega
  have hA : exponentWeight * 2 ^ lastPlace a ≤ a := le_of_lastPlace (by omega)
  have hB : b < 2 * exponentWeight * 2 ^ lastPlace b := lt_of_lastPlace b
  have hPower : exponentWeight * 2 ^ (lastPlace b + 1) ≤ exponentWeight * 2 ^ lastPlace a :=
    Nat.mul_le_mul_left _ (Nat.pow_le_pow_right (by decide) hPlace)
  have hDouble : exponentWeight * 2 ^ (lastPlace b + 1) =
      2 * exponentWeight * 2 ^ lastPlace b := by ring
  omega

/-- The words of positive numbers are in the order of the numbers, and rounding to them is
monotone: below the next place, a significand is rounded up to at most the leading bit there. -/
theorem magnitude_mono {a b : Nat} (h : a ≤ b) : magnitude a ≤ magnitude b := by
  unfold magnitude
  rcases Nat.eq_or_lt_of_le (lastPlace_mono h) with hSame | hLess
  · rw [hSame]
    exact Nat.add_le_add_left (roundQuotient_mono h _) _
  · have hA := roundQuotient_lastPlace_le a
    have hB : exponentWeight ≤ roundQuotient b (2 ^ lastPlace b) :=
      le_roundQuotient_lastPlace (by omega)
    have hPlace : (lastPlace a + 1) * exponentWeight ≤ lastPlace b * exponentWeight :=
      Nat.mul_le_mul_right _ hLess
    rw [Nat.add_mul] at hPlace
    omega

/-- A number that stays in range has the sum of its scale and significand as its word. -/
theorem ofUnits_eq_magnitude (negative : Bool) {units : Nat}
    (h : magnitude units < 2047 * exponentWeight) :
    ofUnits negative units 1 =
      ofWord ((if negative then signWeight else 0) + magnitude units) :=
  ofUnits_eq negative (by rw [Nat.div_one]; rfl) (by rw [Nat.one_mul]) h

/-! Equality of numbers -/

/-- Numbers with the same word are the same. -/
theorem word_inj {x y : Binary64} : x.word = y.word ↔ x = y := by
  constructor
  · intro h
    rw [← ofWord_word x, h, ofWord_word]
  · exact congrArg word

/-- The word of zero is zero, apart from the sign. -/
theorem isZero_eq_false {x : Binary64} (hNonzero : x.word ≠ 0) (hSign : x.word < signWeight) :
    x.isZero = false := by
  by_contra hZero
  rw [Bool.not_eq_false, isZero, Bool.and_eq_true, beq_iff_eq] at hZero
  have hSignificand : x.significand = 0 :=
    (Nat.mul_eq_zero.mp hZero.2).resolve_right (Nat.two_pow_pos _).ne'
  have hScale : x.scale = 0 := by
    by_contra hScale
    have hLeast := exponentWeight_le_significand hScale
    rw [hSignificand] at hLeast
    exact absurd hLeast (by decide)
  have hNegative : x.isNegative = false := decide_eq_false (Nat.not_le.mpr hSign)
  have hWord := x.word_eq
  simp [hSignificand, hScale, hNegative] at hWord
  exact hNonzero hWord

/-- Away from zero and from what is not finite, equality of numbers is that of words. -/
theorem numEq_iff_eq {x y : Binary64} (hFinite : x.isFinite = true) (hZero : x.isZero = false) :
    x.numEq y = true ↔ x = y := by
  have hNumber : x.isNaN = false := by
    rw [isFinite, bne_iff_ne] at hFinite
    rw [isNaN, beq_false_of_ne hFinite, Bool.false_and]
  constructor
  · intro h
    simp [numEq, hNumber, hZero] at h
    exact h.2
  · rintro rfl
    simp [numEq, hNumber]

/-! Integers -/

/-- The word of the number nearest to a natural number, without regard to overflow. -/
def wordOfNat (n : Nat) : Nat := magnitude (n * unitsInOne)

theorem wordOfNat_mono {a b : Nat} (h : a ≤ b) : wordOfNat a ≤ wordOfNat b :=
  magnitude_mono (Nat.mul_le_mul_right _ h)

/-- The word of an integer is that of its absolute value with the sign on top. -/
theorem word_ofInt {n : Int} (h : n.natAbs ≤ 2 ^ 64) :
    (ofInt n).word = (if n < 0 then signWeight else 0) + wordOfNat n.natAbs := by
  have hTop : wordOfNat (2 ^ 64) < 2047 * exponentWeight := by decide +kernel
  have hRange : wordOfNat n.natAbs < 2047 * exponentWeight :=
    Nat.lt_of_le_of_lt (wordOfNat_mono h) hTop
  rw [ofInt, ofRatio, ofUnits_eq_magnitude _ hRange, word, ofWord, UInt64.toNat_ofNat']
  change (_ + wordOfNat n.natAbs) % _ = _
  generalize wordOfNat n.natAbs = rounded at hRange ⊢
  rw [show exponentWeight = 2 ^ 52 from rfl] at hRange
  rw [show signWeight = 2 ^ 63 from rfl]
  simp only [decide_eq_true_eq]
  apply Nat.mod_eq_of_lt
  split_ifs <;> omega

/-- The natural numbers that round to the power of two above the signed integers of 64 bits. The
gap to the numbers of the format is twice as wide above the power as below it. -/
theorem wordOfNat_eq_iff (n : Nat) :
    wordOfNat n = wordOfNat (2 ^ 63) ↔ 2 ^ 63 - 512 ≤ n ∧ n ≤ 2 ^ 63 + 1024 := by
  have hFirst : wordOfNat (2 ^ 63 - 512) = wordOfNat (2 ^ 63) := by decide +kernel
  have hLast : wordOfNat (2 ^ 63 + 1024) = wordOfNat (2 ^ 63) := by decide +kernel
  constructor
  · intro h
    have hBelow : wordOfNat (2 ^ 63 - 513) < wordOfNat (2 ^ 63) := by decide +kernel
    have hAbove : wordOfNat (2 ^ 63) < wordOfNat (2 ^ 63 + 1025) := by decide +kernel
    by_contra hOutside
    rcases Nat.lt_or_ge n (2 ^ 63) with hLess | hMore
    · have hMono : wordOfNat n ≤ wordOfNat (2 ^ 63 - 513) := wordOfNat_mono (by omega)
      omega
    · have hMono : wordOfNat (2 ^ 63 + 1025) ≤ wordOfNat n := wordOfNat_mono (by omega)
      omega
  · intro h
    apply Nat.le_antisymm
    · exact (wordOfNat_mono h.2).trans_eq hLast
    · exact hFirst.symm.trans_le (wordOfNat_mono h.1)

/-- An integer above the signed ones of 64 bits and a signed one are the same number in double
precision if and only if both round to the power of two between them. -/
theorem numEq_ofInt_iff {a n : Int} (hLow : -2 ^ 63 ≤ a) (hSigned : a < 2 ^ 63)
    (hAbove : 2 ^ 63 ≤ n) (hHigh : n < 2 ^ 64) :
    (ofInt n).numEq (ofInt a) = true ↔ 2 ^ 63 - 512 ≤ a ∧ n ≤ 2 ^ 63 + 1024 := by
  have hWordN := word_ofInt (n := n) (by omega)
  rw [if_neg (by omega), Nat.zero_add] at hWordN
  have hMiddle : wordOfNat (2 ^ 63) ≤ wordOfNat n.natAbs := wordOfNat_mono (by omega)
  have hPositive : 0 < wordOfNat (2 ^ 63) := by decide +kernel
  have hTop : wordOfNat (2 ^ 64) < signWeight := by decide +kernel
  have hSignN : wordOfNat n.natAbs ≤ wordOfNat (2 ^ 64) := wordOfNat_mono (by omega)
  rw [numEq_iff_eq (@isFinite_ofInt n 65 (by decide) (by omega))
    (isZero_eq_false (by omega) (by omega)), ← word_inj, hWordN, word_ofInt (by omega)]
  by_cases hNegative : a < 0
  · rw [if_pos hNegative]
    constructor
    · intro h
      omega
    · intro h
      omega
  · have hBelow : wordOfNat a.natAbs ≤ wordOfNat (2 ^ 63) := wordOfNat_mono (by omega)
    have hA := wordOfNat_eq_iff a.natAbs
    have hN := wordOfNat_eq_iff n.natAbs
    rw [if_neg hNegative, Nat.zero_add]
    constructor
    · intro h
      have hSameA := hA.mp (by omega)
      have hSameN := hN.mp (by omega)
      omega
    · intro h
      rw [hN.mpr (by omega), hA.mpr (by omega)]

end ToolSchema.Binary64
