import Mathlib.Tactic.Ring
import ToolSchema.Number.Shortest
import ToolSchema.Proofs.Number.Rounding

/-! The numbers that round to a given one. They are those of its interval, whose
lower half is shorter where the number below is closer. -/
namespace ToolSchema.Binary64

/-! The parts of a word -/

/-- A word is put together from its sign, its scale and its significand. -/
theorem word_eq (x : Binary64) :
    x.word = (if x.isNegative then signWeight else 0) +
      (x.scale * exponentWeight + x.significand) := by
  have hWord : x.word < 2 ^ 64 := x.bits.toNat_lt
  simp only [scale, significand, biasedExponent, fraction, isNegative, decide_eq_true_eq,
    show signWeight = 2 ^ 63 from rfl, show exponentWeight = 2 ^ 52 from rfl]
  split <;> split <;> omega

theorem ofWord_word (x : Binary64) : ofWord x.word = x :=
  congrArg Binary64.mk x.bits.ofNat_toNat

theorem significand_lt (x : Binary64) : x.significand < 2 * exponentWeight := by
  have hFraction : x.fraction < exponentWeight := Nat.mod_lt _ (Nat.two_pow_pos 52)
  unfold significand
  split <;> omega

theorem exponentWeight_le_significand {x : Binary64} (h : x.scale ≠ 0) :
    exponentWeight ≤ x.significand := by
  rw [scale] at h
  rw [significand, if_neg (by omega)]
  exact Nat.le_add_right _ _

/-- Below the word of infinity all words are those of finite numbers. -/
theorem magnitude_lt {x : Binary64} (hFinite : x.isFinite = true) :
    x.scale * exponentWeight + x.significand < 2047 * exponentWeight := by
  have hFraction : x.fraction < exponentWeight := Nat.mod_lt _ (Nat.two_pow_pos 52)
  have hExponent : x.biasedExponent < 2048 := Nat.mod_lt _ (by decide)
  rw [isFinite, bne_iff_ne] at hFinite
  rw [scale, significand]
  rw [show exponentWeight = 2 ^ 52 from rfl] at hFraction ⊢
  split <;> omega

/-! Rounding -/

/-- An integer is the nearest one to a quotient that is at most one half away,
and at one half it is the nearest one if it is even. -/
theorem roundQuotient_eq {num den n : Nat} (hDen : 0 < den) (hLow : 2 * n * den ≤ 2 * num + den)
    (hHigh : 2 * num ≤ 2 * n * den + den)
    (hOdd : n % 2 = 1 → 2 * n * den < 2 * num + den ∧ 2 * num < 2 * n * den + den) :
    roundQuotient num den = n := by
  have hNum : den * (num / den) + num % den = num := Nat.div_add_mod num den
  have hRest : num % den < den := Nat.mod_lt num hDen
  unfold roundQuotient
  dsimp only
  generalize num / den = floor at hNum ⊢
  generalize num % den = rest at hNum hRest ⊢
  have hFloor : floor ≤ n := by
    by_contra hMore
    have hProduct : den * (n + 1) ≤ den * floor := Nat.mul_le_mul_left den (by omega)
    have hSame : den * (n + 1) = n * den + den := by ring
    have hTwice : 2 * n * den = 2 * (n * den) := by ring
    omega
  have hNext : n ≤ floor + 1 := by
    by_contra hMore
    have hProduct : den * (floor + 2) ≤ den * n := Nat.mul_le_mul_left den (by omega)
    have hSame : den * (floor + 2) = den * floor + 2 * den := by ring
    have hTwice : 2 * n * den = 2 * (den * n) := by ring
    omega
  rcases Nat.lt_or_ge floor n with hBelow | hAbove
  · obtain rfl : n = floor + 1 := by omega
    have hTwice : 2 * (floor + 1) * den = 2 * (den * floor) + 2 * den := by ring
    rw [hTwice] at hLow hHigh hOdd
    split
    · omega
    · split <;> omega
  · obtain rfl : n = floor := by omega
    have hTwice : 2 * n * den = 2 * (den * n) := by ring
    rw [hTwice] at hLow hHigh hOdd
    split
    · rfl
    · split <;> omega

/-- The scale of a number follows from the power of two below it. -/
theorem scale_eq {whole scale : Nat} (hLow : scale = 0 ∨ exponentWeight * 2 ^ scale ≤ whole)
    (hHigh : whole < 2 * exponentWeight * 2 ^ scale) :
    (if whole < 2 * exponentWeight then 0 else whole.log2 - 52) = scale := by
  cases scale with
  | zero => exact if_pos (by omega)
  | succ place =>
      have hWhole := hLow.resolve_left (Nat.succ_ne_zero place)
      have hWeight : exponentWeight = 2 ^ 52 := rfl
      rw [hWeight, ← Nat.pow_add] at hWhole
      rw [hWeight, ← Nat.pow_succ', ← Nat.pow_add] at hHigh
      have hLog : whole.log2 = 52 + (place + 1) := by
        have hNonzero : whole ≠ 0 := Nat.ne_of_gt (Nat.lt_of_lt_of_le (Nat.two_pow_pos _) hWhole)
        refine (Nat.log2_eq_iff hNonzero).mpr ⟨hWhole, ?_⟩
        rwa [show 52 + (place + 1) + 1 = 52 + 1 + (place + 1) by omega]
      have hLarge : 2 * exponentWeight ≤ whole := by
        rw [hWeight, ← Nat.pow_succ']
        exact Nat.le_trans (Nat.pow_le_pow_right (by decide) (by omega)) hWhole
      rw [if_neg (Nat.not_lt.mpr hLarge), hLog]
      omega

/-- Rounding in one equation, from the scale and the rounded quotient. -/
theorem ofUnits_eq (negative : Bool) {num den scale n : Nat}
    (hScale : (if num / den < 2 * exponentWeight then 0 else (num / den).log2 - 52) = scale)
    (hRounded : roundQuotient num (den * 2 ^ scale) = n)
    (hRange : scale * exponentWeight + n < 2047 * exponentWeight) :
    ofUnits negative num den =
      ofWord ((if negative then signWeight else 0) + (scale * exponentWeight + n)) := by
  rw [ofUnits, hScale, show Nat.pow 2 scale = 2 ^ scale from rfl, hRounded]
  exact if_pos hRange

/-! Intervals -/

/-- The fraction of units reads back. -/
def Interval.Contains (i : Interval) (num den : Nat) : Prop :=
  i.low * den ≤ 4 * num ∧ 4 * num ≤ i.high * den ∧
    (i.closed = false → i.low * den < 4 * num ∧ 4 * num < i.high * den)

/-- The test of the search is membership in the interval. -/
theorem Interval.holds_iff_contains (i : Interval) (gridNum gridDen digits : Nat) :
    i.holds gridNum gridDen digits = true ↔
      i.Contains (digits * gridNum * unitsInOne) gridDen := by
  have hPoint : digits * gridNum * Interval.denominator = 4 * (digits * gridNum * unitsInOne) :=
    Nat.mul_left_comm _ _ _
  simp only [Interval.holds, Interval.Contains, hPoint]
  split
  · next hClosed => simp [hClosed]
  · next hOpen =>
    simp only [Bool.not_eq_true] at hOpen
    simp only [hOpen, Bool.and_eq_true, decide_eq_true_eq, forall_const]
    omega

/-- The gap to the number below, in quarters of the last place. -/
def gapBelow (x : Binary64) : Nat :=
  if x.significand = exponentWeight ∧ 1 < x.biasedExponent then 1 else 2

theorem interval_low (x : Binary64) :
    x.interval.low = 4 * x.significand * 2 ^ x.scale - x.gapBelow * 2 ^ x.scale := by
  rw [interval, gapBelow]
  split
  · rw [Nat.one_mul]
    rfl
  · rfl

/-- The interval with the place of the last bit as the unit. -/
theorem interval_mul (x : Binary64) (den : Nat) :
    x.interval.low * den =
        4 * (x.significand * (den * 2 ^ x.scale)) - x.gapBelow * (den * 2 ^ x.scale) ∧
      x.interval.value * den = 4 * (x.significand * (den * 2 ^ x.scale)) ∧
      x.interval.high * den =
        4 * (x.significand * (den * 2 ^ x.scale)) + 2 * (den * 2 ^ x.scale) := by
  refine ⟨?_, ?_, ?_⟩
  · rw [interval_low, Nat.sub_mul]
    congr 1 <;> ring
  · change 4 * x.significand * 2 ^ x.scale * den = _
    ring
  · change (4 * x.significand * 2 ^ x.scale + 2 * 2 ^ x.scale) * den = _
    ring

/-- Membership in the interval of a number as inequalities on its significand. At an odd significand
both are strict, since ties go to the even neighbor. -/
theorem Interval.Contains.bounds {x : Binary64} {num den : Nat} (h : x.interval.Contains num den) :
    4 * (x.significand * (den * 2 ^ x.scale)) ≤ 4 * num + x.gapBelow * (den * 2 ^ x.scale) ∧
      4 * num ≤ 4 * (x.significand * (den * 2 ^ x.scale)) + 2 * (den * 2 ^ x.scale) ∧
      (x.significand % 2 = 1 →
        4 * (x.significand * (den * 2 ^ x.scale)) < 4 * num + x.gapBelow * (den * 2 ^ x.scale) ∧
          4 * num < 4 * (x.significand * (den * 2 ^ x.scale)) + 2 * (den * 2 ^ x.scale)) := by
  obtain ⟨hLow, hHigh, hOpen⟩ := h
  obtain ⟨hLowEq, -, hHighEq⟩ := x.interval_mul den
  have hClosed : x.significand % 2 = 1 → x.interval.closed = false := by
    intro hOdd
    change (x.significand % 2 == 0) = false
    rw [hOdd]
    rfl
  rw [hLowEq] at hLow hOpen
  rw [hHighEq] at hHigh hOpen
  refine ⟨by omega, hHigh, fun hOdd => ?_⟩
  obtain ⟨hAbove, hBelow⟩ := hOpen (hClosed hOdd)
  exact ⟨by omega, hBelow⟩

theorem gapBelow_le (x : Binary64) : x.gapBelow ≤ 2 := by
  unfold gapBelow
  split <;> decide

/-- The scale and the rounded significand of the fraction make up the magnitude of
the number. -/
def RoundsTo (num den : Nat) (x : Binary64) : Prop :=
  ∃ scale n, (if num / den < 2 * exponentWeight then 0 else (num / den).log2 - 52) = scale ∧
    roundQuotient num (den * 2 ^ scale) = n ∧
    scale * exponentWeight + n = x.scale * exponentWeight + x.significand

section

variable {x : Binary64} {num den : Nat} (hDen : 0 < den) (h : x.interval.Contains num den)

include hDen h

/-- In its own scale a number is rounded by its quotient alone. -/
theorem roundsTo_of_scale (hScale : x.scale = 0 ∨ exponentWeight * (den * 2 ^ x.scale) ≤ num) :
    RoundsTo num den x := by
  obtain ⟨hLow, hHigh, hOdd⟩ := h.bounds
  have hPlace : 0 < den * 2 ^ x.scale := Nat.mul_pos hDen (Nat.two_pow_pos _)
  have hGap : x.gapBelow * (den * 2 ^ x.scale) ≤ 2 * (den * 2 ^ x.scale) :=
    Nat.mul_le_mul_right _ x.gapBelow_le
  have hTop :
      (x.significand + 1) * (den * 2 ^ x.scale) ≤ 2 * exponentWeight * (den * 2 ^ x.scale) :=
    Nat.mul_le_mul_right _ x.significand_lt
  rw [Nat.add_mul, Nat.one_mul] at hTop
  have hTwice : 2 * x.significand * (den * 2 ^ x.scale) =
      2 * (x.significand * (den * 2 ^ x.scale)) := Nat.mul_assoc ..
  refine ⟨x.scale, x.significand, scale_eq (hScale.imp_right fun hWhole => ?_) ?_,
    roundQuotient_eq hPlace (by omega) (by omega) (fun h => ?_), rfl⟩
  · rw [Nat.le_div_iff_mul_le hDen, Nat.mul_assoc, Nat.mul_comm _ den]
    exact hWhole
  · rw [Nat.div_lt_iff_lt_mul hDen, Nat.mul_assoc, Nat.mul_comm _ den]
    omega
  · obtain ⟨hAbove, hBelow⟩ := hOdd h
    omega

/-- Only the interval of a power of two reaches below its scale. -/
theorem significand_of_below (hScale : x.scale ≠ 0)
    (hBelow : num < exponentWeight * (den * 2 ^ x.scale)) : x.significand = exponentWeight := by
  obtain ⟨hLow, -, -⟩ := h.bounds
  have hPlace : 0 < den * 2 ^ x.scale := Nat.mul_pos hDen (Nat.two_pow_pos _)
  have hGap : x.gapBelow * (den * 2 ^ x.scale) ≤ 2 * (den * 2 ^ x.scale) :=
    Nat.mul_le_mul_right _ x.gapBelow_le
  by_contra hOther
  have hMore : exponentWeight + 1 ≤ x.significand :=
    Nat.lt_of_le_of_ne (exponentWeight_le_significand hScale) (Ne.symm hOther)
  have hProduct := Nat.mul_le_mul_right (den * 2 ^ x.scale) hMore
  rw [Nat.add_mul, Nat.one_mul] at hProduct
  omega

/-- Below a power of two the last place is one lower, and the fraction rounds to twice
the leading bit there. -/
theorem roundsTo_of_below (hScale : x.scale ≠ 0)
    (hBelow : num < exponentWeight * (den * 2 ^ x.scale)) : RoundsTo num den x := by
  obtain ⟨hLow, -, -⟩ := h.bounds
  have hSignificand := significand_of_below hDen h hScale hBelow
  have hOne : x.gapBelow = 1 := if_pos ⟨hSignificand, by rw [scale] at hScale; omega⟩
  obtain ⟨place, hPlace⟩ := Nat.exists_eq_succ_of_ne_zero hScale
  have hHalf : den * 2 ^ x.scale = 2 * (den * 2 ^ place) := by
    rw [hPlace, Nat.pow_succ]
    ring
  rw [hSignificand, hOne, hHalf] at hLow
  rw [hHalf] at hBelow
  have hDouble : exponentWeight * (2 * (den * 2 ^ place)) =
      2 * (exponentWeight * (den * 2 ^ place)) := Nat.mul_left_comm ..
  have hQuadruple : 2 * (2 * exponentWeight) * (den * 2 ^ place) =
      4 * (exponentWeight * (den * 2 ^ place)) := by ring
  have hWeight : den * 2 ^ place ≤ exponentWeight * (den * 2 ^ place) :=
    Nat.le_mul_of_pos_left _ (Nat.two_pow_pos 52)
  refine ⟨place, 2 * exponentWeight, scale_eq (.inr ?_) ?_,
    roundQuotient_eq (Nat.mul_pos hDen (Nat.two_pow_pos _)) (by omega) (by omega)
      (fun h => by omega), ?_⟩
  · rw [Nat.le_div_iff_mul_le hDen, Nat.mul_assoc, Nat.mul_comm _ den]
    omega
  · rw [Nat.div_lt_iff_lt_mul hDen, Nat.mul_assoc, Nat.mul_assoc, Nat.mul_comm _ den]
    omega
  · rw [hPlace, hSignificand, Nat.succ_eq_add_one]
    ring

/-- Everything in the interval of a number rounds to its magnitude. -/
theorem roundsTo_of_contains : RoundsTo num den x := by
  by_cases hSame : x.scale = 0 ∨ exponentWeight * (den * 2 ^ x.scale) ≤ num
  · exact roundsTo_of_scale hDen h hSame
  · obtain ⟨hScale, hBelow⟩ := not_or.mp hSame
    exact roundsTo_of_below hDen h hScale (Nat.lt_of_not_le hBelow)

end

/-- A fraction of units in the interval of a finite number is read as the
number. -/
theorem ofUnits_of_contains {x : Binary64} (hFinite : x.isFinite = true) {num den : Nat}
    (hDen : 0 < den) (h : x.interval.Contains num den) : ofUnits x.isNegative num den = x := by
  obtain ⟨scale, n, hScale, hRounded, hMagnitude⟩ := roundsTo_of_contains hDen h
  have hRange : scale * exponentWeight + n < 2047 * exponentWeight := by
    rw [hMagnitude]
    exact magnitude_lt hFinite
  rw [ofUnits_eq x.isNegative hScale hRounded hRange, hMagnitude, ← word_eq, ofWord_word]

end ToolSchema.Binary64
