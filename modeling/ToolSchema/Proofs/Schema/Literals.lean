import ToolSchema.Proofs.Number.Order
import ToolSchema.Proofs.Schema.Acceptance

/-! Which integers a literal of integers accepts. Integers are compared exactly as long as they fit
in 64 bits with sign, and in double precision beyond that. -/
namespace ToolSchema

/-- A signed integer of 64 bits and one above them that round to the power of two between them. -/
def RoundTogether (a : Int64) (n : Int) : Prop :=
  2 ^ 63 - 512 ≤ a.toInt ∧ 2 ^ 63 ≤ n ∧ n ≤ 2 ^ 63 + 1024

theorem Constant.int_accepts_iff (a : Int64) {n : Int} (hLow : -2 ^ 63 ≤ n) (hHigh : n < 2 ^ 64) :
    (Constant.int a).accepts (.int n) = true ↔ a.toInt = n ∨ RoundTogether a n := by
  have hLeast : -2 ^ 63 ≤ a.toInt := a.minValue_le_toInt
  have hGreatest : a.toInt < 2 ^ 63 := a.toInt_lt
  rcases lt_or_ge n (2 ^ 63) with hSigned | hAbove
  · have hInt : (Json.int n).int64? = some (.ofInt n) := if_pos ⟨hLow, Int.le_sub_one_of_lt hSigned⟩
    have hBack : (Int64.ofInt n).toInt = n := Int64.toInt_ofInt_of_le hLow hSigned
    rw [accepts, hInt, RoundTogether]
    simp only [beq_iff_eq, ← Int64.toInt_inj, hBack]
    omega
  · have hInt : (Json.int n).int64? = none := if_neg fun h => absurd h.2 (by
      change ¬ n ≤ 2 ^ 63 - 1
      omega)
    rw [accepts, hInt, RoundTogether]
    dsimp only
    rw [Binary64.numEq_ofInt_iff hLeast hGreatest hAbove hHigh]
    omega

namespace Schema

/-- A constant integer is the JSON integer with the same value, and apart from that only integers
that round together are taken for each other. So a literal of integers accepts its options, and
beyond the signed integers what rounds together with one of them. -/
theorem integer_literals_accept_iff {n : Int} (hLow : -2 ^ 63 ≤ n) (hHigh : n < 2 ^ 64) :
    (∀ a : Int64, (Constant.int a).accepts (.int n) = true ↔ a.toInt = n ∨ RoundTogether a n) ∧
      ∀ options : List Int64, Accepts (.literal (options.map .int)) (.int n) ↔
        ∃ a ∈ options, a.toInt = n ∨ RoundTogether a n := by
  refine ⟨fun a => Constant.int_accepts_iff a hLow hHigh, fun options => ?_⟩
  simp only [accepts_literal_iff, List.mem_map, exists_exists_and_eq_and,
    Constant.int_accepts_iff _ hLow hHigh]

/-- The number after those that round down to the power of two is not accepted. -/
theorem far_integer_not_accepted :
    ¬ Accepts (.literal ([7, Int64.maxValue].map .int)) (.int (2 ^ 63 + 1025)) := by
  rw [(@integer_literals_accept_iff (2 ^ 63 + 1025) (by decide) (by decide)).2]
  unfold RoundTogether
  decide

/-- The greatest signed integer is taken for the next one. -/
theorem next_integer_accepted :
    (Constant.int Int64.maxValue).accepts (.int (2 ^ 63)) = true ∧
      Int64.maxValue.toInt ≠ 2 ^ 63 ∧
      Accepts (.literal [.int Int64.maxValue]) (.int (2 ^ 63)) := by
  have hAccepts : (Constant.int Int64.maxValue).accepts (.int (2 ^ 63)) = true := by decide +kernel
  exact ⟨hAccepts, by decide, (accepts_literal_iff _ _).mpr ⟨_, List.mem_cons_self, hAccepts⟩⟩

end Schema

end ToolSchema
