import Mathlib.Algebra.Group.Nat.Defs
import ToolSchema.Number.Binary64

/-! Rounding keeps integers within the range of the format: the number nearest
to an integer below half of the largest number is finite. -/
namespace ToolSchema.Binary64

/-- A quotient below an integer is not rounded past it. -/
theorem roundQuotient_le {num den bound : Nat} (h : num < bound * den) :
    roundQuotient num den ≤ bound := by
  have hFloor : num / den < bound := Nat.div_lt_of_lt_mul (Nat.mul_comm bound den ▸ h)
  unfold roundQuotient
  simp only
  split
  · omega
  · split <;> omega

/-- The sign does not matter, and the exponent is not the one of infinity. -/
theorem isFinite_ofWord (negative : Bool) {magnitude : Nat}
    (h : magnitude < 2047 * exponentWeight) :
    (ofWord ((if negative then signWeight else 0) + magnitude)).isFinite = true := by
  have hWeight : exponentWeight = 2 ^ 52 := rfl
  have hSign : ∃ sign, sign ≤ 1 ∧
      (if negative then signWeight else 0) = sign * 2048 * exponentWeight := by
    cases negative
    · exact ⟨0, by decide, rfl⟩
    · exact ⟨1, by decide, rfl⟩
  obtain ⟨sign, hBit, hSign⟩ := hSign
  have hWord : (ofWord (sign * 2048 * exponentWeight + magnitude)).word =
      magnitude + sign * 2048 * exponentWeight := by
    rw [word, ofWord, UInt64.toNat_ofNat', Nat.add_comm]
    rw [hWeight] at h ⊢
    exact Nat.mod_eq_of_lt (by omega)
  have hQuotient : magnitude / exponentWeight < 2047 :=
    Nat.div_lt_of_lt_mul (Nat.mul_comm 2047 _ ▸ h)
  rw [isFinite, biasedExponent, hSign, hWord, Nat.add_mul_div_right _ _ (by decide),
    Nat.add_mul_mod_self_right, Nat.mod_eq_of_lt (Nat.lt_succ_of_lt hQuotient), bne_iff_ne]
  exact Nat.ne_of_lt hQuotient

/-- The place of the last bit that is kept. -/
def lastPlace (units : Nat) : Nat :=
  if units < 2 * exponentWeight then 0 else units.log2 - 52

/-- The last place leaves 53 bits to the significand. -/
theorem lt_of_lastPlace (units : Nat) : units < 2 * exponentWeight * 2 ^ lastPlace units := by
  unfold lastPlace
  split
  · next hSmall => simpa using hSmall
  · next hLarge =>
    have hWeight : 2 * exponentWeight = 2 ^ 53 := rfl
    have hNonzero : units ≠ 0 := by omega
    have hLow : 52 ≤ units.log2 := (Nat.le_log2 hNonzero).mpr (by omega)
    rw [hWeight, ← Nat.pow_add, show 53 + (units.log2 - 52) = units.log2 + 1 by omega]
    exact Nat.lt_log2_self

/-- The last of the 53 places lies 53 below the bound of the number. -/
theorem lastPlace_le {units top : Nat} (h : units < 2 ^ top) : lastPlace units ≤ top - 53 := by
  unfold lastPlace
  split
  · exact Nat.zero_le _
  · next hLarge =>
    have hNonzero : units ≠ 0 := by
      rintro rfl
      exact hLarge (by decide)
    have hHigh : units.log2 < top := (Nat.log2_lt hNonzero).mpr h
    omega

/-- A number below the top power of two of the format is rounded to a finite one. -/
theorem isFinite_ofUnits (negative : Bool) {units top : Nat} (hTop : top ≤ 2097)
    (h : units < 2 ^ top) : (ofUnits negative units 1).isFinite = true := by
  have hPlace : lastPlace units ≤ top - 53 := lastPlace_le h
  have hRounded : roundQuotient units (2 ^ lastPlace units) ≤ 2 * exponentWeight :=
    roundQuotient_le (lt_of_lastPlace units)
  have hMagnitude : lastPlace units * exponentWeight +
      roundQuotient units (2 ^ lastPlace units) < 2047 * exponentWeight := by
    rw [show exponentWeight = 2 ^ 52 from rfl] at hRounded ⊢
    omega
  have hNumber : ofUnits negative units 1 = ofWord ((if negative then signWeight else 0) +
      (lastPlace units * exponentWeight + roundQuotient units (2 ^ lastPlace units))) := by
    rw [ofUnits, Nat.div_one, Nat.one_mul]
    exact if_pos hMagnitude
  rw [hNumber]
  exact isFinite_ofWord negative hMagnitude

theorem isFinite_ofInt {n : Int} {top : Nat} (hTop : top ≤ 1023) (h : n.natAbs < 2 ^ top) :
    (ofInt n).isFinite = true := by
  unfold ofInt ofRatio unitsInOne
  generalize hPlace : 1074 = place
  have hUnits : n.natAbs * Nat.pow 2 place < 2 ^ (top + place) := by
    rw [Nat.pow_add]
    exact Nat.mul_lt_mul_of_lt_of_le h (Nat.le_refl _) (Nat.two_pow_pos _)
  exact isFinite_ofUnits _ (by omega) hUnits

end ToolSchema.Binary64
