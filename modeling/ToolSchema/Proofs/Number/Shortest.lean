import ToolSchema.Proofs.Number.Decimal
import ToolSchema.Proofs.Number.Nearest

/-! The shortest decimal of a number reads back. Decimals that lie in the
interval of a number are read as the number, and among seventeen digits there is
always such a decimal. -/
namespace ToolSchema

namespace Number

theorem lt_pow_length_toDigits (n : Nat) : n < 10 ^ (Nat.toDigits 10 n).length :=
  (Nat.length_toDigits_le_iff (by decide) Nat.length_toDigits_pos).mp (Nat.le_refl _)

/-- A number is not below the power of ten of its first digit. -/
theorem pow_length_toDigits_le {n : Nat} (h : n ≠ 0) :
    10 ^ ((Nat.toDigits 10 n).length - 1) ≤ n := by
  by_cases hOne : (Nat.toDigits 10 n).length - 1 = 0
  · rw [hOne]
    exact Nat.one_le_iff_ne_zero.mpr h
  · by_contra hLess
    have hShort := (Nat.length_toDigits_le_iff (by decide) (Nat.pos_of_ne_zero hOne)).mpr
      (Nat.lt_of_not_le hLess)
    omega

end Number

namespace Binary64

open Number (lt_pow_length_toDigits pow_length_toDigits_le)

/-- Equal fractions lie in the same intervals. -/
theorem Interval.Contains.congr {i : Interval} {num den num' den' : Nat} (hDen : 0 < den)
    (hDen' : 0 < den') (hSame : num * den' = num' * den) (h : i.Contains num den) :
    i.Contains num' den' := by
  have hLow : i.low * den' * den = i.low * den * den' := Nat.mul_right_comm ..
  have hHigh : i.high * den' * den = i.high * den * den' := Nat.mul_right_comm ..
  have hNum : 4 * num' * den = 4 * num * den' := by rw [Nat.mul_assoc, ← hSame, Nat.mul_assoc]
  refine ⟨?_, ?_, fun hOpen => ⟨?_, ?_⟩⟩
  · refine Nat.le_of_mul_le_mul_right ?_ hDen
    rw [hLow, hNum]
    exact Nat.mul_le_mul_right _ h.1
  · refine Nat.le_of_mul_le_mul_right ?_ hDen
    rw [hHigh, hNum]
    exact Nat.mul_le_mul_right _ h.2.1
  · refine Nat.lt_of_mul_lt_mul_right (a := den) ?_
    rw [hLow, hNum]
    exact Nat.mul_lt_mul_of_pos_right (h.2.2 hOpen).1 hDen'
  · refine Nat.lt_of_mul_lt_mul_right (a := den) ?_
    rw [hHigh, hNum]
    exact Nat.mul_lt_mul_of_pos_right (h.2.2 hOpen).2 hDen'

/-- The decimal stands for a point of the interval. -/
def Interval.Admits (i : Interval) (d : Decimal) : Prop :=
  i.Contains (d.digits * 10 ^ d.exponent.toNat * unitsInOne) (10 ^ (-d.exponent).toNat)

/-! Reading decimals -/

theorem significand_pos {x : Binary64} (hFinite : x.isFinite = true) (hZero : x.isZero = false) :
    0 < x.significand := by
  rw [isZero, hFinite, Bool.true_and, beq_eq_false_iff_ne, units] at hZero
  exact Nat.pos_of_mul_pos_right (Nat.pos_of_ne_zero hZero)

/-- The interval of a number above zero does not reach zero. -/
theorem interval_low_pos {x : Binary64} (h : 0 < x.significand) : 0 < x.interval.low := by
  have hGap := Nat.mul_le_mul_right (2 ^ x.scale) x.gapBelow_le
  have hValue := Nat.mul_le_mul_right (2 ^ x.scale) (Nat.mul_le_mul_left 4 h)
  have hUnit := Nat.two_pow_pos x.scale
  rw [interval_low]
  omega

theorem two_pow_le_ten_pow (n : Nat) : 2 ^ (3 * n) ≤ 10 ^ n := by
  rw [Nat.pow_mul]
  exact Nat.pow_le_pow_left (by decide) n

theorem exists_denominator_eq : ∃ place, place = 1076 ∧ Interval.denominator = 2 ^ place := by
  unfold Interval.denominator unitsInOne
  generalize hPlace : 1074 = place
  exact ⟨place + 2, by omega, (Nat.mul_comm ..).trans (Nat.pow_add 2 place 2).symm⟩

theorem denominator_pos : 0 < Interval.denominator := by
  obtain ⟨place, _, hDenominator⟩ := exists_denominator_eq
  rw [hDenominator]
  exact Nat.two_pow_pos place

/-- From the exponent on at which reading gives up, powers of ten exceed the denominator. -/
theorem denominator_le_ten_pow {n : Nat} (h : 400 ≤ n) : Interval.denominator ≤ 10 ^ n := by
  obtain ⟨place, hPlace, hDenominator⟩ := exists_denominator_eq
  rw [hDenominator]
  exact Nat.le_trans (Nat.pow_le_pow_right (by decide) (by omega)) (two_pow_le_ten_pow n)

/-- No interval reaches the exponent at which reading gives up. -/
theorem interval_high_lt (x : Binary64) {n : Nat} (h : 400 ≤ n) :
    x.interval.high < Interval.denominator * 10 ^ n := by
  obtain ⟨place, hPlace, hDenominator⟩ := exists_denominator_eq
  have hScale : 55 + x.scale ≤ place + 3 * n := by
    have hExponent : x.biasedExponent < 2048 := Nat.mod_lt _ (by decide)
    rw [scale]
    omega
  have hSignificand : 4 * x.significand + 2 < 2 ^ 55 := by
    have h := x.significand_lt
    rw [show exponentWeight = 2 ^ 52 from rfl] at h
    omega
  calc x.interval.high = (4 * x.significand + 2) * 2 ^ x.scale := (Nat.add_mul ..).symm
    _ < 2 ^ 55 * 2 ^ x.scale := Nat.mul_lt_mul_of_pos_right hSignificand (Nat.two_pow_pos _)
    _ ≤ 2 ^ (place + 3 * n) := by
      rw [← Nat.pow_add]
      exact Nat.pow_le_pow_right (by decide) hScale
    _ ≤ Interval.denominator * 10 ^ n := by
      rw [Nat.pow_add, hDenominator]
      exact Nat.mul_le_mul_left _ (two_pow_le_ten_pow n)

/-- Admission with the two parts of the exponent apart, of which one is zero. -/
theorem Interval.Admits.bounds {i : Interval} {d : Decimal} (h : i.Admits d) :
    ∃ up down : Nat, d.exponent = up - down ∧
      i.low * 10 ^ down ≤ d.digits * 10 ^ up * denominator ∧
      d.digits * 10 ^ up * denominator ≤ i.high * 10 ^ down := by
  have hPoint (n : Nat) : 4 * (n * unitsInOne) = n * denominator := Nat.mul_left_comm ..
  obtain ⟨hLow, hHigh, -⟩ := h
  rw [hPoint] at hLow hHigh
  exact ⟨d.exponent.toNat, (-d.exponent).toNat, by omega, hLow, hHigh⟩

section

variable {x : Binary64} {d : Decimal} (h : x.interval.Admits d)

include h

/-- The leading digit of a decimal near a number is not far behind the point. -/
theorem le_top_of_admits (hFinite : x.isFinite = true) (hZero : x.isZero = false) :
    -400 ≤ (Nat.toDigits 10 d.digits).length + d.exponent := by
  obtain ⟨up, down, hExponent, hLow, -⟩ := h.bounds
  have hTen (n : Nat) : 0 < 10 ^ n := Nat.pow_pos (by decide)
  have hUpper := lt_pow_length_toDigits d.digits
  generalize (Nat.toDigits 10 d.digits).length = length at hUpper ⊢
  by_contra hFar
  obtain ⟨n, hn⟩ : ∃ n, down = n + (length + up) := ⟨down - (length + up), by omega⟩
  have hLess : 10 ^ down < 10 ^ down := calc
    10 ^ down ≤ x.interval.low * 10 ^ down :=
      Nat.le_mul_of_pos_left _ (interval_low_pos (significand_pos hFinite hZero))
    _ ≤ d.digits * 10 ^ up * Interval.denominator := hLow
    _ ≤ d.digits * 10 ^ up * 10 ^ n := Nat.mul_le_mul_left _ (denominator_le_ten_pow (by omega))
    _ < 10 ^ length * 10 ^ up * 10 ^ n :=
      Nat.mul_lt_mul_of_pos_right (Nat.mul_lt_mul_of_pos_right hUpper (hTen up)) (hTen n)
    _ = 10 ^ down := by rw [hn, Nat.mul_comm, ← Nat.pow_add, ← Nat.pow_add]
  exact Nat.lt_irrefl _ hLess

/-- The leading digit is not far before the point either. -/
theorem top_le_of_admits (hDigits : d.digits ≠ 0) :
    (Nat.toDigits 10 d.digits).length + d.exponent ≤ 400 := by
  obtain ⟨up, down, hExponent, -, hHigh⟩ := h.bounds
  have hTen (n : Nat) : 0 < 10 ^ n := Nat.pow_pos (by decide)
  have hLength := @Nat.length_toDigits_pos 10 d.digits
  have hLower := pow_length_toDigits_le hDigits
  generalize (Nat.toDigits 10 d.digits).length = length at hLength hLower ⊢
  by_contra hFar
  obtain ⟨n, hn⟩ : ∃ n, length - 1 + up = n + down := ⟨length - 1 + up - down, by omega⟩
  have hLess : d.digits * 10 ^ up * Interval.denominator <
      d.digits * 10 ^ up * Interval.denominator := calc
    _ ≤ x.interval.high * 10 ^ down := hHigh
    _ < Interval.denominator * 10 ^ n * 10 ^ down :=
      Nat.mul_lt_mul_of_pos_right (interval_high_lt x (by omega)) (hTen down)
    _ = 10 ^ (length - 1) * 10 ^ up * Interval.denominator := by
      rw [Nat.mul_assoc, ← Nat.pow_add, ← Nat.pow_add, hn, Nat.mul_comm]
    _ ≤ d.digits * 10 ^ up * Interval.denominator :=
      Nat.mul_le_mul_right _ (Nat.mul_le_mul_right _ hLower)
  exact Nat.lt_irrefl _ hLess

/-- A decimal in the interval of a number is read as the number: its exponent is not
among those that are answered without forming the power. -/
theorem ofDecimal_of_admits (hFinite : x.isFinite = true) (hZero : x.isZero = false)
    (hDigits : d.digits ≠ 0) : ofDecimal x.isNegative d.digits d.exponent = x := by
  have hLow := le_top_of_admits h hFinite hZero
  have hHigh := top_le_of_admits h hDigits
  have hPoint := ofUnits_of_contains hFinite (Nat.pow_pos (by decide)) h
  rw [ofDecimal, if_neg (by omega), if_neg (by omega)]
  split
  · next hNatural =>
    rw [show (-d.exponent).toNat = 0 by omega] at hPoint
    exact hPoint
  · next hNegative =>
    rw [show d.exponent.toNat = 0 by omega, Nat.pow_zero, Nat.mul_one] at hPoint
    exact hPoint

end

/-! The search -/

/-- A decimal other than zero that reads back. -/
def Interval.Finds (i : Interval) (d : Decimal) : Prop := d.digits ≠ 0 ∧ i.Admits d

theorem Interval.Finds.ite {i : Interval} {c : Prop} [Decidable c] {a b : Nat} {exponent : Int}
    (ha : i.Finds ⟨a, exponent⟩) (hb : i.Finds ⟨b, exponent⟩) :
    i.Finds ⟨if c then a else b, exponent⟩ := by
  split
  · exact ha
  · exact hb

/-- What a single grid gives lies in the interval. -/
theorem Interval.finds_of_onGrid? {i : Interval} {tie : Tie} {exponent : Int} {d : Decimal}
    (h : i.onGrid? tie exponent = some d) : i.Finds d := by
  have hAdmits {digits : Nat} (hHolds : i.holds (Nat.pow 10 exponent.toNat)
      (Nat.pow 10 (-exponent).toNat) digits = true) : i.Admits ⟨digits, exponent⟩ :=
    (i.holds_iff_contains _ _ _).mp hHolds
  unfold onGrid? at h
  dsimp only at h
  split at h
  · next hBelow hAbove =>
    rw [Bool.and_eq_true, bne_iff_ne] at hBelow
    obtain rfl := Option.some.inj h
    exact .ite ⟨Nat.succ_ne_zero _, hAdmits hAbove⟩ ⟨hBelow.2, hAdmits hBelow.1⟩
  · next hBelow _ =>
    rw [Bool.and_eq_true, bne_iff_ne] at hBelow
    obtain rfl := Option.some.inj h
    exact ⟨hBelow.2, hAdmits hBelow.1⟩
  · next _ hAbove =>
    obtain rfl := Option.some.inj h
    exact ⟨Nat.succ_ne_zero _, hAdmits hAbove⟩
  · cases h

/-- The search finds something if one of its tries does. -/
theorem Interval.finds_search {i : Interval} {tie : Tie} {tries step : Nat} {exponent : Int}
    (hStep : step < tries) (h : (i.onGrid? tie (exponent - step)).isSome = true) :
    i.Finds (i.search tie tries exponent) := by
  induction tries generalizing step exponent with
  | zero => cases hStep
  | succ tries ih =>
      rw [search]
      cases hGrid : i.onGrid? tie exponent with
      | some d => exact finds_of_onGrid? hGrid
      | none =>
          cases step with
          | zero =>
              rw [Int.natCast_zero, Int.sub_zero, hGrid] at h
              cases h
          | succ step =>
              refine ih (Nat.lt_of_succ_lt_succ hStep) ?_
              rwa [show exponent - 1 - (step : Int) = exponent - ((step + 1 : Nat) : Int) by omega]

/-- A zero at the end may go into the exponent. -/
theorem Interval.Finds.dropZero {i : Interval} {d : Decimal} (h : i.Finds d)
    (hZero : d.digits % 10 = 0) : i.Finds ⟨d.digits / 10, d.exponent + 1⟩ := by
  obtain ⟨hDigits, hAdmits⟩ := h
  have hTen (n : Nat) : 0 < 10 ^ n := Nat.pow_pos (by decide)
  refine ⟨by dsimp only; omega, hAdmits.congr (hTen _) (hTen _) ?_⟩
  have hPower : 10 * (10 ^ d.exponent.toNat * 10 ^ (-(d.exponent + 1)).toNat) =
      10 ^ (d.exponent + 1).toNat * 10 ^ (-d.exponent).toNat := by
    rw [← Nat.pow_add, ← Nat.pow_add, ← Nat.pow_succ']
    exact congrArg _ (by omega)
  calc d.digits * 10 ^ d.exponent.toNat * unitsInOne * 10 ^ (-(d.exponent + 1)).toNat
      = d.digits / 10 * (10 * (10 ^ d.exponent.toNat * 10 ^ (-(d.exponent + 1)).toNat)) *
          unitsInOne := by
        rw [← Nat.mul_assoc, Nat.div_mul_cancel (Nat.dvd_of_mod_eq_zero hZero)]
        ring
    _ = d.digits / 10 * 10 ^ (d.exponent + 1).toNat * unitsInOne * 10 ^ (-d.exponent).toNat := by
        rw [hPower]
        ring

/-- So may several zeros, one after the other. -/
theorem Interval.Finds.dropZeros {i : Interval} {d : Decimal} (h : i.Finds d) (fuel : Nat) :
    i.Finds (d.dropZeros fuel) := by
  induction fuel generalizing d with
  | zero => exact h
  | succ fuel ih =>
      rw [Decimal.dropZeros]
      split
      · next hZero => exact ih (h.dropZero hZero)
      · exact h

/-- The leading digit stands where the value says. -/
theorem Interval.magnitude_le {i : Interval} (hValue : 0 < i.value) :
    Interval.denominator * 10 ^ (i.magnitude - 1).toNat ≤
      i.value * 10 ^ (1 - i.magnitude).toNat := by
  rw [magnitude]
  split
  · next hLarge =>
    have hQuotient : i.value / Interval.denominator ≠ 0 :=
      Nat.ne_of_gt (Nat.div_pos hLarge denominator_pos)
    have hCount := @Nat.length_toDigits_pos 10 (i.value / Interval.denominator)
    have hPower := pow_length_toDigits_le hQuotient
    rw [Decimal.digitCount,
      show (((Nat.toDigits 10 (i.value / Interval.denominator)).length : Int) - 1).toNat =
        (Nat.toDigits 10 (i.value / Interval.denominator)).length - 1 by omega,
      show (1 - ((Nat.toDigits 10 (i.value / Interval.denominator)).length : Int)).toNat = 0 by
        omega, Nat.pow_zero, Nat.mul_one]
    exact Nat.le_trans (Nat.mul_le_mul_left _ hPower) (Nat.mul_div_le _ _)
  · next hSmall =>
    have hPower := lt_pow_length_toDigits ((Interval.denominator - 1) / i.value)
    rw [Nat.div_lt_iff_lt_mul hValue, Nat.mul_comm] at hPower
    rw [Decimal.digitCount, Int.sub_sub_self, Int.toNat_natCast,
      show (1 - ((Nat.toDigits 10 ((Interval.denominator - 1) / i.value)).length : Int) - 1).toNat =
        0 by omega, Nat.pow_zero, Nat.mul_one]
    omega

/-- A grid of seventeen digits is finer than the value by sixteen powers of ten. -/
theorem Interval.grid_le {i : Interval} (hValue : 0 < i.value) {exponent : Int}
    (hExponent : exponent = i.magnitude - 17) :
    10 ^ exponent.toNat * Interval.denominator * 10 ^ 16 ≤ i.value * 10 ^ (-exponent).toNat := by
  have hPower : 10 ^ exponent.toNat * 10 ^ 16 * 10 ^ (1 - i.magnitude).toNat =
      10 ^ (i.magnitude - 1).toNat * 10 ^ (-exponent).toNat := by
    rw [← Nat.pow_add, ← Nat.pow_add, ← Nat.pow_add]
    exact congrArg _ (by omega)
  refine Nat.le_of_mul_le_mul_right (c := 10 ^ (1 - i.magnitude).toNat) ?_
    (Nat.pow_pos (by decide))
  calc 10 ^ exponent.toNat * Interval.denominator * 10 ^ 16 * 10 ^ (1 - i.magnitude).toNat
      = Interval.denominator * (10 ^ exponent.toNat * 10 ^ 16 * 10 ^ (1 - i.magnitude).toNat) := by
        ring
    _ = Interval.denominator * 10 ^ (i.magnitude - 1).toNat * 10 ^ (-exponent).toNat := by
        rw [hPower, Nat.mul_assoc]
    _ ≤ i.value * 10 ^ (1 - i.magnitude).toNat * 10 ^ (-exponent).toNat :=
        Nat.mul_le_mul_right _ (magnitude_le hValue)
    _ = i.value * 10 ^ (-exponent).toNat * 10 ^ (1 - i.magnitude).toNat := Nat.mul_right_comm ..

/-- The interval of a number is wider than the number with its point moved by
sixteen digits. -/
theorem value_lt_width (x : Binary64) {unit : Nat} (hUnit : 0 < unit) :
    4 * (x.significand * unit) < (x.gapBelow * unit + 2 * unit) * 10 ^ 16 := by
  have hTop := Nat.mul_le_mul_right unit x.significand_lt
  rw [Nat.succ_mul, show exponentWeight = 2 ^ 52 from rfl] at hTop
  unfold gapBelow
  split
  · next hPower =>
    rw [hPower.1, show exponentWeight = 2 ^ 52 from rfl]
    omega
  · omega

/-- A grid of seventeen digits is finer than the interval of a number, so one of the
two neighbours of the number on the grid lies in it. -/
theorem holds_of_grid_le {x : Binary64} {gridNum gridDen : Nat} (hNum : 0 < gridNum)
    (hDen : 0 < gridDen)
    (hGrid : gridNum * Interval.denominator * 10 ^ 16 ≤ x.interval.value * gridDen) :
    x.interval.holds gridNum gridDen
        (x.interval.value * gridDen / (gridNum * Interval.denominator)) = true ∨
      x.interval.holds gridNum gridDen
        (x.interval.value * gridDen / (gridNum * Interval.denominator) + 1) = true := by
  have hStep : 0 < gridNum * Interval.denominator := Nat.mul_pos hNum denominator_pos
  have hUnit : 0 < gridDen * 2 ^ x.scale := Nat.mul_pos hDen (Nat.two_pow_pos _)
  have hPoint (n : Nat) :
      4 * (n * gridNum * unitsInOne) = n * (gridNum * Interval.denominator) := by
    unfold Interval.denominator
    ring
  obtain ⟨hLow, hValue, hHigh⟩ := x.interval_mul gridDen
  have hWidth := x.value_lt_width hUnit
  simp only [Interval.holds_iff_contains, Interval.Contains, hPoint, hLow, hHigh]
  rw [hValue] at hGrid ⊢
  generalize gridNum * Interval.denominator = step at hGrid hStep ⊢
  generalize gridDen * 2 ^ x.scale = unit at hGrid hUnit hWidth ⊢
  generalize x.significand * unit = whole at hGrid hWidth ⊢
  have hDivision : step * (4 * whole / step) + 4 * whole % step = 4 * whole := Nat.div_add_mod _ _
  have hRest : 4 * whole % step < step := Nat.mod_lt _ hStep
  rw [Nat.add_mul, Nat.one_mul, Nat.mul_comm (4 * whole / step) step]
  generalize step * (4 * whole / step) = below at hDivision ⊢
  generalize x.gapBelow * unit = gap at hWidth ⊢
  by_cases hNear : 4 * whole - gap < below
  · exact .inl ⟨by omega, by omega, fun _ => by omega⟩
  · exact .inr ⟨by omega, by omega, fun _ => by omega⟩

/-- The last grid of the search always finds something. -/
theorem isSome_onGrid? {x : Binary64} (hSignificand : 0 < x.significand) (tie : Tie) :
    (x.interval.onGrid? tie (x.interval.magnitude - 1 - (16 : Nat))).isSome = true := by
  have hValue : 0 < x.interval.value :=
    Nat.mul_pos (Nat.mul_pos (by decide) hSignificand) (Nat.two_pow_pos _)
  generalize hExponent : x.interval.magnitude - 1 - ((16 : Nat) : Int) = exponent
  have hTen (n : Nat) : 0 < 10 ^ n := Nat.pow_pos (by decide)
  have hGrid := @Interval.grid_le x.interval hValue exponent (by omega)
  have hHolds := holds_of_grid_le (hTen exponent.toNat) (hTen (-exponent).toNat) hGrid
  have hBelow : x.interval.value * 10 ^ (-exponent).toNat /
      (10 ^ exponent.toNat * Interval.denominator) ≠ 0 :=
    Nat.ne_of_gt (Nat.div_pos (Nat.le_trans (Nat.le_mul_of_pos_right _ (hTen 16)) hGrid)
      (Nat.mul_pos (hTen _) denominator_pos))
  unfold Interval.onGrid?
  dsimp only
  split
  · rfl
  · rfl
  · rfl
  · next hNone hAbove =>
    rcases hHolds with hHolds | hHolds
    · rw [Bool.and_eq_false_iff, bne_eq_false_iff_eq] at hNone
      exact absurd (hNone.resolve_left (ne_false_of_eq_true hHolds)) hBelow
    · exact absurd hHolds (Bool.not_eq_true _ ▸ hAbove)

/-- The shortest decimal of a number reads back. -/
theorem finds_shortest (tie : Tie) {x : Binary64} (hFinite : x.isFinite = true)
    (hZero : x.isZero = false) : x.interval.Finds (x.shortest tie) :=
  (Interval.finds_search (by decide)
    (isSome_onGrid? (significand_pos hFinite hZero) tie)).dropZeros 20

/-! Fractional parts -/

/-- A unit in the last place of a number divides the number one, or else the
number is integral. -/
theorem exists_unitsInOne_eq {x : Binary64} (hFinite : x.isFinite = true)
    (hFraction : x.isIntegral = false) : ∃ count, unitsInOne = count * 2 ^ x.scale := by
  rw [isIntegral, hFinite, Bool.true_and, beq_eq_false_iff_ne, units] at hFraction
  unfold unitsInOne at hFraction ⊢
  generalize 1074 = place at hFraction ⊢
  by_cases hScale : x.scale ≤ place
  · exact ⟨2 ^ (place - x.scale), by rw [← Nat.pow_add, Nat.sub_add_cancel hScale]; rfl⟩
  · have hDivides : Nat.pow 2 place ∣ Nat.pow 2 x.scale := Nat.pow_dvd_pow 2 (by omega)
    exact absurd (Nat.mod_eq_zero_of_dvd (hDivides.mul_left _)) hFraction

/-- The interval of a number that is not integral has no integers in it. -/
theorem Interval.Admits.exponent_neg {x : Binary64} (hFinite : x.isFinite = true)
    (hFraction : x.isIntegral = false) {d : Decimal} (h : x.interval.Admits d) :
    d.exponent < 0 := by
  by_contra hNatural
  obtain ⟨count, hCount⟩ := exists_unitsInOne_eq hFinite hFraction
  obtain ⟨hLow, hHigh, -⟩ := Contains.bounds h
  have hUnit : 0 < 2 ^ x.scale := Nat.two_pow_pos _
  have hPoint : d.digits * 10 ^ d.exponent.toNat * unitsInOne =
      d.digits * 10 ^ d.exponent.toNat * count * 2 ^ x.scale := by
    rw [hCount, Nat.mul_assoc _ count]
  have hGap := Nat.mul_le_mul_right (2 ^ x.scale) x.gapBelow_le
  have hSame : x.significand = d.digits * 10 ^ d.exponent.toNat * count := by
    rw [show (-d.exponent).toNat = 0 by omega, Nat.pow_zero, Nat.one_mul, hPoint] at hLow hHigh
    generalize d.digits * 10 ^ d.exponent.toNat * count = whole at hLow hHigh
    generalize x.gapBelow * 2 ^ x.scale = gap at hLow hGap
    rcases Nat.lt_trichotomy x.significand whole with hLess | hEqual | hMore
    · have hNext := Nat.mul_le_mul_right (2 ^ x.scale) hLess
      rw [Nat.succ_mul] at hNext
      omega
    · exact hEqual
    · have hNext := Nat.mul_le_mul_right (2 ^ x.scale) hMore
      rw [Nat.succ_mul] at hNext
      omega
  rw [isIntegral, hFinite, Bool.true_and, beq_eq_false_iff_ne] at hFraction
  refine hFraction (Nat.mod_eq_zero_of_dvd ⟨d.digits * 10 ^ d.exponent.toNat, ?_⟩)
  rw [units, hSame, Nat.mul_comm unitsInOne]
  exact hPoint.symm

end Binary64

end ToolSchema
