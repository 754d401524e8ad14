import Mathlib.Data.List.TakeWhile
import ToolSchema.Number.Layout
import ToolSchema.Proofs.Number.Shortest
import ToolSchema.Proofs.Text.Lines

/-! Numbers that are written out with a decimal point and without an exponent
read back. -/
namespace ToolSchema

open Text (span_append_cons)

namespace Number

/-! Reading -/

theorem ofDigits_append_zero (digits : List Char) :
    ofDigits (digits ++ ['0']) = 10 * ofDigits digits := by
  rw [ofDigits, List.foldl_append]
  rfl

section

variable {text whole fraction : List Char} {negative : Bool}
  (hSign : splitSign text = (negative, whole ++ '.' :: fraction))

include hSign

/-- A text with a decimal point is not an integer. -/
theorem int64?_point : int64? text = none := by
  rw [int64?, hSign]
  refine if_neg fun h => ?_
  have hAll := (Bool.and_eq_true_iff.mp h.1).2
  exact absurd (List.all_eq_true.mp hAll '.' (by simp)) (by decide)

/-- A text with a decimal point is read as the decimal of its digits. -/
theorem binary64?_point (hWhole : ∀ c ∈ whole, c.isDigit = true)
    (hFraction : ∀ c ∈ fraction, c.isDigit = true) (hSome : whole ≠ []) :
    binary64? text =
      some (Binary64.ofDecimal negative (ofDigits (whole ++ fraction)) (-fraction.length)) := by
  obtain ⟨hTake, hDrop⟩ := span_append_cons hWhole (show '.'.isDigit = false by decide)
  rw [binary64?, hSign]
  dsimp only
  rw [hTake, hDrop]
  change (if (whole.isEmpty && (fraction.takeWhile Char.isDigit).isEmpty) = true then none
    else (exponent? (fraction.dropWhile Char.isDigit)).map fun exponent =>
      Binary64.ofDecimal negative (ofDigits (whole ++ fraction.takeWhile Char.isDigit))
        (exponent - (fraction.takeWhile Char.isDigit).length)) = _
  rw [List.takeWhile_eq_self_iff.mpr hFraction, List.dropWhile_eq_nil_iff.mpr hFraction, if_neg,
    exponent?, Option.map_some, Int.zero_sub]
  rw [Bool.and_eq_true, List.isEmpty_iff]
  exact fun h => hSome h.1

end

/-- The text is a decimal with digits on both sides of the point that is read as
the number. -/
def Spells (text : List Char) (x : Binary64) : Prop :=
  ∃ whole fraction, text = (if x.isNegative then ['-'] else []) ++ (whole ++ '.' :: fraction) ∧
    whole ≠ [] ∧ (∀ c ∈ whole ++ fraction, c.isDigit = true) ∧
    Binary64.ofDecimal x.isNegative (ofDigits (whole ++ fraction)) (-fraction.length) = x

/-- Sign and digits of a text that spells a number. -/
theorem Spells.splitSign {text : List Char} {x : Binary64} (h : Spells text x) :
    ∃ whole fraction, splitSign text = (x.isNegative, whole ++ '.' :: fraction) ∧ whole ≠ [] ∧
      (∀ c ∈ whole ++ fraction, c.isDigit = true) ∧
      Binary64.ofDecimal x.isNegative (ofDigits (whole ++ fraction)) (-fraction.length) = x := by
  obtain ⟨whole, fraction, rfl, hSome, hDigits, hValue⟩ := h
  refine ⟨whole, fraction, ?_, hSome, hDigits, hValue⟩
  cases x.isNegative with
  | true => rfl
  | false =>
      obtain ⟨first, more, rfl⟩ := List.exists_cons_of_ne_nil hSome
      exact splitSign_digit (hDigits first List.mem_cons_self) _

/-- What spells a number is no integer, and it is read as the number. -/
theorem Spells.reads {text : List Char} {x : Binary64} (h : Spells text x) :
    int64? text = none ∧ binary64? text = some x := by
  obtain ⟨whole, fraction, hSign, hSome, hDigits, hValue⟩ := h.splitSign
  rw [List.forall_mem_append] at hDigits
  rw [binary64?_point hSign hDigits.1 hDigits.2 hSome, hValue]
  exact ⟨int64?_point hSign, rfl⟩

/-- The text of a number begins with a sign or a digit and goes on with digits and
a point. -/
theorem Spells.exists_cons {text : List Char} {x : Binary64} (h : Spells text x) :
    ∃ first more, text = first :: more ∧ (first = '-' ∨ first.isDigit = true) ∧
      ∀ c ∈ more, c.isDigit = true ∨ c = '.' := by
  obtain ⟨whole, fraction, rfl, hSome, hDigits, _⟩ := h
  rw [List.forall_mem_append] at hDigits
  have hAll : ∀ c ∈ whole ++ '.' :: fraction, c.isDigit = true ∨ c = '.' := by
    rw [List.forall_mem_append, List.forall_mem_cons]
    exact ⟨fun c hm => .inl (hDigits.1 c hm), .inr rfl, fun c hm => .inl (hDigits.2 c hm)⟩
  cases x.isNegative with
  | true => exact ⟨'-', _, rfl, .inl rfl, hAll⟩
  | false =>
      obtain ⟨first, more, rfl⟩ := List.exists_cons_of_ne_nil hSome
      exact ⟨first, _, rfl, .inr (hDigits.1 first List.mem_cons_self), fun c hm =>
        hAll c (List.mem_cons_of_mem _ hm)⟩

end Number

open Number (Spells ofDigits ofDigits_zeros ofDigits_append_zero ofDigits_toDigits
  isDigit_of_mem_toDigits)

/-! Writing -/

namespace Binary64

/-- A number lies in its own interval. -/
theorem interval_contains_units (x : Binary64) : x.interval.Contains x.units 1 := by
  have hUnit : 0 < 2 ^ x.scale := Nat.two_pow_pos _
  have hGap : 0 < x.gapBelow * 2 ^ x.scale := by
    refine Nat.mul_pos ?_ hUnit
    unfold gapBelow
    split <;> decide
  have hValue : 4 * x.significand * 2 ^ x.scale = 4 * x.units := Nat.mul_assoc ..
  have hHigh : x.interval.high = 4 * x.units + 2 * 2 ^ x.scale :=
    congrArg (· + 2 * 2 ^ x.scale) hValue
  rw [Interval.Contains, interval_low, hValue, hHigh, Nat.mul_one, Nat.mul_one]
  refine ⟨Nat.sub_le _ _, Nat.le_add_right _ _, fun hOpen => ?_⟩
  have hOdd : x.significand ≠ 0 := by
    intro hNothing
    rw [show x.interval.closed = (x.significand % 2 == 0) from rfl, hNothing] at hOpen
    cases hOpen
  have hUnits : 0 < x.units := Nat.mul_pos (Nat.pos_of_ne_zero hOdd) hUnit
  omega

/-- A number with a fractional part is not zero. -/
theorem not_isZero_of_not_isIntegral {x : Binary64} (h : x.isIntegral = false) :
    x.isZero = false := by
  rw [Bool.eq_false_iff, isZero, Ne, Bool.and_eq_true, beq_iff_eq]
  rintro ⟨hFinite, hUnits⟩
  rw [isIntegral, hFinite, hUnits, Nat.zero_mod] at h
  cases h

/-- A number without a fractional part, as tenths. -/
theorem ofDecimal_of_isIntegral {x : Binary64} (h : x.isIntegral = true) :
    ofDecimal x.isNegative (10 * (x.units / unitsInOne)) (-1) = x := by
  rw [isIntegral, Bool.and_eq_true, beq_iff_eq] at h
  have hUnits : x.units / unitsInOne * unitsInOne = x.units :=
    Nat.div_mul_cancel (Nat.dvd_of_mod_eq_zero h.2)
  by_cases hNothing : x.units = 0
  · rw [hNothing, Nat.zero_div, Nat.mul_zero, ofDecimal, if_pos (.inl rfl), ofRatio, Nat.zero_mul,
      ← hNothing]
    exact ofUnits_of_contains h.1 Nat.one_pos x.interval_contains_units
  · refine @ofDecimal_of_admits x ⟨10 * (x.units / unitsInOne), -1⟩ ?_ h.1 ?_ ?_
    · refine x.interval_contains_units.congr Nat.one_pos (Nat.pow_pos (by decide)) ?_
      calc x.units * 10 ^ (1 : Int).toNat
          = x.units / unitsInOne * unitsInOne * 10 ^ (1 : Int).toNat := by rw [hUnits]
        _ = 10 * (x.units / unitsInOne) * 10 ^ (-1 : Int).toNat * unitsInOne * 1 := by
          change x.units / unitsInOne * unitsInOne * 10 =
            10 * (x.units / unitsInOne) * 1 * unitsInOne * 1
          ring
    · rw [isZero, h.1, Bool.true_and, beq_eq_false_iff_ne]
      exact hNothing
    · intro hDigits
      have hWhole := (Nat.mul_eq_zero.mp hDigits).resolve_left (by decide)
      rw [← hUnits, hWhole, Nat.zero_mul] at hNothing
      exact hNothing rfl

end Binary64

namespace NumberLayout

/-- Where the point stands inside the digits or before them, the value stays the
same and there are as many fractional digits as there should be. -/
theorem exists_positionalText (layout : NumberLayout) {digits : List Char} {point : Int}
    (hPoint : point < digits.length) : ∃ whole fraction,
      layout.positionalText digits point = whole ++ '.' :: fraction ∧ whole ≠ [] ∧
      (∀ c ∈ whole ++ fraction, c = '0' ∨ c ∈ digits) ∧
      ofDigits (whole ++ fraction) = ofDigits digits ∧
      (fraction.length : Int) = digits.length - point := by
  rw [positionalText]
  split
  · next hBefore =>
    refine ⟨['0'], List.replicate (-point).toNat '0' ++ digits, rfl, List.cons_ne_nil _ _,
      fun c hm => ?_, ofDigits_zeros ((-point).toNat + 1) digits, ?_⟩
    · simp only [List.singleton_append, List.mem_cons, List.mem_append, List.mem_replicate] at hm
      tauto
    · rw [List.length_append, List.length_replicate]
      omega
  · next hInside =>
    rw [if_neg (by omega)]
    refine ⟨digits.take point.toNat, digits.drop point.toNat, rfl, ?_, ?_, ?_, ?_⟩
    · rw [Ne, List.take_eq_nil_iff]
      rintro (hNothing | rfl)
      · omega
      · rw [List.length_nil] at hPoint
        omega
    · rw [List.take_append_drop]
      exact fun c hm => .inr hm
    · rw [List.take_append_drop]
    · rw [List.length_drop]
      omega

/-- A number without a fractional part is spelled out with all its digits and a zero behind the
point. -/
theorem spells_integralText {x : Binary64} (h : x.isIntegral = true) :
    Spells (integralText x).toList x := by
  refine ⟨Nat.toDigits 10 (x.units / Binary64.unitsInOne), ['0'], ?_, Nat.toDigits_ne_nil,
    ?_, ?_⟩
  · rw [integralText, String.toList_ofList]
    split <;> rfl
  · rw [List.forall_mem_append]
    exact ⟨fun c => isDigit_of_mem_toDigits, List.forall_mem_singleton.mpr rfl⟩
  · rw [ofDigits_append_zero, ofDigits_toDigits]
    exact Binary64.ofDecimal_of_isIntegral h

/-- The plain layout writes every digit and no exponent. -/
theorem toList_render_plain {x : Binary64} (hFinite : x.isFinite = true)
    (hZero : x.isZero = false) : (plain.render x).toList =
      (if x.isNegative then ['-'] else []) ++
        plain.positionalText (Nat.toDigits 10 (x.shortest .up).digits)
          ((x.shortest .up).exponent + (Nat.toDigits 10 (x.shortest .up).digits).length) := by
  have hNumber : x.isNaN = false ∧ x.isInfinite = false := by
    rw [Binary64.isFinite, bne_iff_ne] at hFinite
    simp [Binary64.isNaN, Binary64.isInfinite, hFinite]
  rw [render, hNumber.1, hNumber.2, magnitudeText, hZero]
  simp only [Bool.false_eq_true, if_false, String.toList_ofList, plain, Int.sub_add_cancel]
  split <;> rfl

/-- Any other finite number is spelled by its shortest decimal. -/
theorem spells_render_plain {x : Binary64} (hFinite : x.isFinite = true)
    (hFraction : x.isIntegral = false) : Spells (plain.render x).toList x := by
  have hZero := Binary64.not_isZero_of_not_isIntegral hFraction
  have hText := toList_render_plain hFinite hZero
  obtain ⟨hDigits, hAdmits⟩ := Binary64.finds_shortest .up hFinite hZero
  generalize x.shortest .up = d at hText hDigits hAdmits
  have hExponent := hAdmits.exponent_neg hFinite hFraction
  obtain ⟨whole, fraction, hPosition, hSome, hMem, hValue, hLength⟩ :=
    @exists_positionalText plain (Nat.toDigits 10 d.digits)
      (d.exponent + (Nat.toDigits 10 d.digits).length) (by omega)
  have hPlaces : -(fraction.length : Int) = d.exponent := by omega
  refine ⟨whole, fraction, hPosition ▸ hText, hSome, fun c hm => ?_, ?_⟩
  · rcases hMem c hm with rfl | hm
    · rfl
    · exact isDigit_of_mem_toDigits hm
  · rw [hValue, ofDigits_toDigits, hPlaces]
    exact Binary64.ofDecimal_of_admits hAdmits hFinite hZero hDigits

end NumberLayout

end ToolSchema
