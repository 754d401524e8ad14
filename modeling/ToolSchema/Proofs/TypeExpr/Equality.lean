import ToolSchema.Proofs.Pairs
import ToolSchema.Proofs.TypeExpr.Structure

/-! Equality of constants and of types. It is symmetric and transitive. It is
not reflexive, because a constant that is not a number differs from itself. -/
namespace ToolSchema

namespace Binary64

theorem numEq_symm {x y : Binary64} (h : x.numEq y = true) : y.numEq x = true := by
  simp only [numEq, Bool.and_eq_true, Bool.or_eq_true, decide_eq_true_eq] at h ⊢
  exact ⟨h.1.symm, h.2.imp Eq.symm And.symm⟩

/-- Two numbers equal to a third one are equal, also through the two zeros. -/
theorem numEq_trans {x y z : Binary64} (hxy : x.numEq y = true) (hyz : y.numEq z = true) :
    x.numEq z = true := by
  simp only [numEq, Bool.and_eq_true, Bool.or_eq_true, decide_eq_true_eq] at hxy hyz ⊢
  refine ⟨⟨hxy.1.1, hyz.1.2⟩, ?_⟩
  rcases hxy.2 with rfl | hZero
  · exact hyz.2
  · rcases hyz.2 with rfl | hZero'
    · exact .inr hZero
    · exact .inr ⟨hZero.1, hZero'.2⟩

end Binary64

namespace Constant

theorem same_symm {a b : Constant} (h : a.same b = true) : b.same a = true := by
  cases a <;> cases b <;> simp only [same, beq_iff_eq, Bool.false_eq_true] at h ⊢
  case float.float x y => exact Binary64.numEq_symm h
  all_goals exact h.symm

/-- Constants of different kinds are never equal, so the kinds go along. -/
theorem same_trans {a b c : Constant} (hab : a.same b = true) (hbc : b.same c = true) :
    a.same c = true := by
  cases a <;> cases b <;> simp only [same, beq_iff_eq, Bool.false_eq_true] at hab <;>
    cases c <;> simp only [same, beq_iff_eq, Bool.false_eq_true] at hbc ⊢
  case float.float.float x y z => exact Binary64.numEq_trans hab hbc
  all_goals exact hab.trans hbc

instance : PartialEquivBEq Constant where
  symm := same_symm
  trans := same_trans

end Constant

namespace TypeExpr

/-- Equality as a relation, one rule for each kind of type. -/
inductive Equal : TypeExpr → TypeExpr → Prop
  | any : Equal .any .any
  | null : Equal .null .null
  | int : Equal .int .int
  | float : Equal .float .float
  | str : Equal .str .str
  | bool : Equal .bool .bool
  | named (name : String) {s t : TypeExpr} (h : Equal s t) : Equal (.alias name s) (.alias name t)
  | tagged (tags : List String) {s t : TypeExpr} (h : Equal s t) :
      Equal (.tagged s tags) (.tagged t tags)
  | literal {a b : List Constant} (h : List.Forall₂ (fun x y => (x == y) = true) a b) :
      Equal (.literal a) (.literal b)
  | union {a b : List TypeExpr} (hLength : a.length = b.length)
      (h : ∀ s t, (s, t) ∈ a.zip b → Equal s t) : Equal (.union a) (.union b)
  | generic (origin : Origin) {a b : List TypeExpr} (hLength : a.length = b.length)
      (h : ∀ s t, (s, t) ∈ a.zip b → Equal s t) : Equal (.generic origin a) (.generic origin b)
  | ellipsis : Equal .ellipsis .ellipsis
  | classRef {a b : ClassRef} (h : a.index = b.index) : Equal (.classRef a) (.classRef b)

/-- Lists of types are equal if they have the same length and are equal at each place. -/
theorem sameAll_iff {a b : List TypeExpr} :
    sameAll a b = true ↔ List.Forall₂ (fun s t => same s t = true) a b := by
  induction a generalizing b with
  | nil => cases b <;> simp [sameAll]
  | cons s a ih => cases b <;> simp [sameAll, ih]

theorem constants_beq_iff {a b : List Constant} :
    (a == b) = true ↔ List.Forall₂ (fun x y => (x == y) = true) a b := by
  induction a generalizing b with
  | nil => cases b <;> simp
  | cons x a ih => cases b <;> simp [ih]

/-- The test for equality follows the rules. -/
theorem equal_of_same {s t : TypeExpr} (h : same s t = true) : Equal s t := by
  induction s using TypeExpr.induction generalizing t with
  | named name s ih =>
      cases t <;> simp only [same, Bool.and_eq_true, beq_iff_eq, Bool.false_eq_true] at h
      obtain ⟨rfl, h⟩ := h
      exact .named name (ih h)
  | tagged s tags ih =>
      cases t <;> simp only [same, Bool.and_eq_true, beq_iff_eq, Bool.false_eq_true] at h
      obtain ⟨h, rfl⟩ := h
      exact .tagged tags (ih h)
  | literal a =>
      cases t <;> simp only [same, constants_beq_iff, Bool.false_eq_true] at h
      exact .literal h
  | union a ih =>
      cases t <;> simp only [same, sameAll_iff, Bool.false_eq_true] at h
      exact .union h.length_eq fun s t hm => ih s (List.of_mem_zip hm).1 (List.forall₂_zip h hm)
  | generic origin a ih =>
      cases t <;> simp only [same, Bool.and_eq_true, beq_iff_eq, sameAll_iff,
        Bool.false_eq_true] at h
      obtain ⟨rfl, h⟩ := h
      exact .generic origin h.length_eq fun s t hm =>
        ih s (List.of_mem_zip hm).1 (List.forall₂_zip h hm)
  | classRef a =>
      cases t <;> simp only [same, beq_iff_eq, Bool.false_eq_true] at h
      exact .classRef h
  | _ =>
      cases t <;> simp only [same, Bool.false_eq_true] at h
      constructor

/-- Every rule is covered by the test. -/
theorem Equal.same {s t : TypeExpr} (h : Equal s t) : same s t = true := by
  induction h with
  | named name _ ih => simp [TypeExpr.same, ih]
  | tagged tags _ ih => simp [TypeExpr.same, ih]
  | literal h => rw [TypeExpr.same, constants_beq_iff.mpr h]
  | union hLength _ ih =>
      rw [TypeExpr.same, sameAll_iff]
      exact List.forall₂_iff_zip.mpr ⟨hLength, ih _ _⟩
  | generic origin hLength _ ih =>
      rw [TypeExpr.same, Bool.and_eq_true, sameAll_iff]
      exact ⟨beq_self_eq_true origin, List.forall₂_iff_zip.mpr ⟨hLength, ih _ _⟩⟩
  | classRef h => simp [TypeExpr.same, h]
  | _ => rfl

theorem beq_iff_equal {s t : TypeExpr} : (s == t) = true ↔ Equal s t :=
  ⟨equal_of_same, Equal.same⟩

theorem Equal.symm {s t : TypeExpr} (h : Equal s t) : Equal t s := by
  induction h with
  | named name _ ih => exact .named name ih
  | tagged tags _ ih => exact .tagged tags ih
  | literal h => exact .literal (h.flip.imp fun _ _ hxy => BEq.symm hxy)
  | union hLength _ ih =>
      have hArms := (List.forall₂_iff_zip.mpr ⟨hLength, ih _ _⟩).flip
      exact .union hLength.symm fun s t hm => List.forall₂_zip hArms hm
  | generic origin hLength _ ih =>
      have hArgs := (List.forall₂_iff_zip.mpr ⟨hLength, ih _ _⟩).flip
      exact .generic origin hLength.symm fun s t hm => List.forall₂_zip hArgs hm
  | classRef h => exact .classRef h.symm
  | _ => constructor

/-- By induction on the first proof. The second one must have been made by the same rule. -/
theorem Equal.trans {s t u : TypeExpr} (hst : Equal s t) (htu : Equal t u) : Equal s u := by
  induction hst generalizing u with
  | named name _ ih =>
      cases htu with
      | named _ h => exact .named name (ih h)
  | tagged tags _ ih =>
      cases htu with
      | tagged _ h => exact .tagged tags (ih h)
  | literal h =>
      cases htu with
      | literal h' => exact .literal (h.chain h' fun _ _ _ => BEq.trans)
  | union hLength _ ih =>
      cases htu with
      | union hLength' h' =>
        have hArms := (List.forall₂_iff_zip.mpr ⟨hLength, ih _ _⟩).chain
          (List.forall₂_iff_zip.mpr ⟨hLength', h' _ _⟩) fun _ _ _ hst htu => hst htu
        exact .union hArms.length_eq fun s u hm => List.forall₂_zip hArms hm
  | generic origin hLength _ ih =>
      cases htu with
      | generic _ hLength' h' =>
        have hArgs := (List.forall₂_iff_zip.mpr ⟨hLength, ih _ _⟩).chain
          (List.forall₂_iff_zip.mpr ⟨hLength', h' _ _⟩) fun _ _ _ hst htu => hst htu
        exact .generic origin hArgs.length_eq fun s u hm => List.forall₂_zip hArgs hm
  | classRef h =>
      cases htu with
      | classRef h' => exact .classRef (h.trans h')
  | _ => exact htu

instance : PartialEquivBEq TypeExpr where
  symm h := beq_iff_equal.mpr (beq_iff_equal.mp h).symm
  trans hst htu := beq_iff_equal.mpr ((beq_iff_equal.mp hst).trans (beq_iff_equal.mp htu))

end TypeExpr

end ToolSchema
