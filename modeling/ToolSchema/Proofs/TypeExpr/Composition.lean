import ToolSchema.Proofs.TypeExpr.Normal

/-! Normalizing twice. Types that are equal stay equal when they are normalized,
so what the first pass drops as a repetition would be dropped by the second. -/
namespace ToolSchema

theorem Origin.concretize_concretize (origin : Origin) :
    origin.concretize.concretize = origin.concretize := by
  cases origin <;> rfl

namespace TypeExpr

/-! Equal types have equal normal forms -/

theorem Equal.isLiteral_eq {s t : TypeExpr} (h : Equal s t) : s.isLiteral = t.isLiteral := by
  cases h <;> rfl

theorem Equal.arms {s t : TypeExpr} (h : Equal s t) : List.Forall₂ Equal (arms s) (arms t) := by
  have hAlone : List.Forall₂ Equal [s] [t] := .cons h .nil
  cases h with
  | union hLength hArms => exact List.forall₂_iff_zip.mpr ⟨hLength, hArms _ _⟩
  | _ => exact hAlone

theorem equal_others {a b : List TypeExpr} (h : List.Forall₂ Equal a b) :
    List.Forall₂ Equal (others a) (others b) := by
  refine List.rel_filter (fun s t hst => ?_) h
  change (!s.isLiteral) = true ↔ (!t.isLiteral) = true
  rw [hst.isLiteral_eq]

theorem equal_constants {a b : List TypeExpr} (h : List.Forall₂ Equal a b) :
    List.Forall₂ (fun x y => (x == y) = true) (constants a) (constants b) := by
  induction h with
  | nil => exact .nil
  | @cons s t a b hHead hTail ih =>
      cases hHead with
      | literal hValues => exact List.rel_append hValues ih
      | _ => exact ih

/-- The first of equal types are kept at the same places on both sides. -/
theorem equal_eraseDups {a b : List TypeExpr} (h : List.Forall₂ Equal a b) :
    List.Forall₂ Equal a.eraseDups b.eraseDups := by
  have hKept := (h.imp fun _ _ hst => beq_iff_equal.mpr hst).eraseDups
  exact hKept.imp fun _ _ hst => beq_iff_equal.mp hst

theorem equal_ofArms {a b : List TypeExpr} (h : List.Forall₂ Equal a b) :
    Equal (ofArms a) (ofArms b) := by
  have hUnion : Equal (.union a) (.union b) :=
    .union h.length_eq fun _ _ hm => List.forall₂_zip h hm
  cases h with
  | nil => exact hUnion
  | cons hHead hTail =>
      cases hTail with
      | nil => exact hHead
      | cons _ _ => exact hUnion

/-- Equal leaves merge to equal types. -/
theorem equal_merge {a b : List TypeExpr} (h : List.Forall₂ Equal a b) :
    Equal (merge a) (merge b) := by
  have hOthers := equal_eraseDups (equal_others h)
  have hConstants := (equal_constants h).eraseDups
  rw [merge_eq, merge_eq, kept, kept]
  apply equal_ofArms
  have hEmpty : (constants a).eraseDups.isEmpty = (constants b).eraseDups.isEmpty := by
    rw [Bool.eq_iff_iff, List.isEmpty_iff_length_eq_zero, List.isEmpty_iff_length_eq_zero,
      hConstants.length_eq]
  rw [hEmpty]
  split
  · exact hOthers
  · exact List.rel_append hOthers (.cons (.literal hConstants) .nil)

/-- Equal types have equal normal forms. -/
theorem Equal.normalize {s t : TypeExpr} (h : Equal s t) (concretize : Bool) :
    Equal (s.normalize concretize) (t.normalize concretize) := by
  induction h with
  | named _ _ ih => exact ih
  | tagged _ _ ih => exact ih
  | literal hValues => exact .literal hValues.eraseDups
  | union hLength _ ih =>
      rw [normalize_union, normalize_union]
      have hArms := List.forall₂_iff_zip.mpr ⟨hLength, ih _ _⟩
      exact equal_merge (List.rel_flatMap hArms fun _ _ hst => hst.arms)
  | @generic origin a b hLength _ ih =>
      rw [TypeExpr.normalize, TypeExpr.normalize, normalizeAll_eq_map, normalizeAll_eq_map]
      have hArgs : List.Forall₂ Equal (a.map (TypeExpr.normalize concretize))
          (b.map (TypeExpr.normalize concretize)) :=
        List.forall₂_map_left_iff.mpr <| List.forall₂_map_right_iff.mpr <|
          List.forall₂_iff_zip.mpr ⟨hLength, ih _ _⟩
      exact .generic _ hArgs.length_eq fun _ _ hm => List.forall₂_zip hArgs hm
  | classRef h => exact .classRef h
  | _ => constructor

theorem beq_normalize (concretize : Bool) (s t : TypeExpr) (h : (s == t) = true) :
    (s.normalize concretize == t.normalize concretize) = true :=
  beq_iff_equal.mpr ((beq_iff_equal.mp h).normalize concretize)

/-! Two passes -/

/-- Whether a leaf is a literal is settled before normalization. -/
theorem others_map_normalize {types : List TypeExpr} (h : ∀ t ∈ types, t.isLeaf = true)
    (concretize : Bool) :
    others (types.map (normalize concretize)) = (others types).map (normalize concretize) := by
  rw [others, List.filter_map]
  refine congrArg _ (List.filter_congr fun t hm => ?_)
  change (!(t.normalize concretize).isLiteral) = !t.isLiteral
  rw [isLiteral_normalize concretize (h t hm)]

/-- Normalization takes repeated constants from a literal and nothing else. -/
theorem constants_map_normalize {types : List TypeExpr} (h : ∀ t ∈ types, t.isLeaf = true)
    (concretize : Bool) :
    (constants (types.map (normalize concretize))).eraseDups = (constants types).eraseDups := by
  induction types with
  | nil => rfl
  | cons t types ih =>
      rw [List.forall_mem_cons] at h
      rw [List.map_cons]
      cases hLiteral : t.isLiteral with
      | false =>
          rw [constants_cons_of_not_literal _ hLiteral, constants_cons_of_not_literal, ih h.2]
          rw [isLiteral_normalize concretize h.1, hLiteral]
      | true =>
          cases t with
          | literal values =>
              exact List.eraseDups_append_congr (List.eraseDups_eraseDups values) (ih h.2)
          | _ => cases hLiteral

/-- Leaves that make the same union still do after normalization. -/
theorem Alike.map_normalize {a b : List TypeExpr} (h : Alike a b)
    (ha : ∀ t ∈ a, t.isLeaf = true) (hb : ∀ t ∈ b, t.isLeaf = true) (concretize : Bool) :
    Alike (a.map (normalize concretize)) (b.map (normalize concretize)) := by
  constructor
  · rw [others_map_normalize ha, others_map_normalize hb]
    exact List.eraseDups_map_congr (beq_normalize concretize) h.others
  · rw [constants_map_normalize ha, constants_map_normalize hb, h.constants]

/-- Merging keeps a single leaf as it is, unless it lists no values. -/
theorem merge_singleton {t : TypeExpr} (h : t.isLeaf = true) (hEmpty : t ≠ .literal [])
    (concretize : Bool) : merge [t.normalize concretize] = t.normalize concretize := by
  cases hLiteral : t.isLiteral with
  | false =>
      have hNormal := isLiteral_normalize concretize h
      rw [hLiteral] at hNormal
      rw [merge_eq, kept, constants_cons_of_not_literal _ hNormal,
        others_cons_of_not_literal _ hNormal]
      rfl
  | true =>
      cases t with
      | literal values =>
          have hValues : constants [(TypeExpr.literal values).normalize concretize] =
              values.eraseDups := List.append_nil _
          rw [merge_eq, kept, hValues, List.eraseDups_eraseDups]
          cases values with
          | nil => exact absurd rfl hEmpty
          | cons value values =>
              rw [List.eraseDups_cons]
              exact congrArg TypeExpr.literal List.eraseDups_cons.symm
      | _ => cases hLiteral

/-- An empty literal disappears when leaves are merged. -/
theorem ne_empty_of_mem_kept {leaves : List TypeExpr} {t : TypeExpr} (hm : t ∈ kept leaves) :
    t ≠ .literal [] := by
  rcases of_mem_kept hm with ⟨_, hOther⟩ | ⟨hValues, rfl⟩
  · rintro rfl
    cases hOther
  · exact fun he => hValues (TypeExpr.literal.inj he)

/-- Normalizing a union of leaves merges their normal forms. Without the empty literal this holds of
a single leaf as well. -/
theorem normalize_ofArms {types : List TypeExpr} (hLeaf : ∀ t ∈ types, t.isLeaf = true)
    (hEmpty : ∀ t ∈ types, t ≠ .literal []) (concretize : Bool) :
    (ofArms types).normalize concretize = merge (types.map (normalize concretize)) := by
  rw [ofArms.eq_def]
  split
  · next t =>
    exact (merge_singleton (hLeaf t List.mem_cons_self) (hEmpty t List.mem_cons_self) _).symm
  · have hLeaves : leaves (.union types) = types := @leaves_eq_arms (.union types) hLeaf
    rw [normalize_union_eq_merge, hLeaves]

/-- A pass over merged leaves is a pass over each of them. -/
theorem normalize_merge {leaves : List TypeExpr} (h : ∀ leaf ∈ leaves, leaf.isLeaf = true)
    (concretize : Bool) :
    (merge leaves).normalize concretize = merge (leaves.map (normalize concretize)) := by
  have hKept : ∀ t ∈ kept leaves, t.isLeaf = true := fun _ hm => isLeaf_of_mem_kept h hm
  rw [merge_eq, normalize_ofArms hKept fun _ hm => ne_empty_of_mem_kept hm]
  exact merge_congr ((alike_kept leaves).map_normalize hKept h concretize)

/-- Two passes are one pass, which replaces abstract containers if one of the
two does. -/
theorem normalize_normalize (first second : Bool) (t : TypeExpr) :
    (t.normalize first).normalize second = t.normalize (first || second) := by
  induction t using TypeExpr.induction with
  | named _ _ ih => exact ih
  | tagged _ _ ih => exact ih
  | literal values => exact congrArg _ (List.eraseDups_eraseDups values)
  | union types ih =>
      have hLeaf : ∀ leaf ∈ types.flatMap fun t => arms (t.normalize first),
          leaf.isLeaf = true := by
        intro leaf hm
        obtain ⟨t, _, hm⟩ := List.mem_flatMap.mp hm
        exact isLeaf_of_mem_arms_normalize hm
      rw [normalize_union, normalize_merge hLeaf, normalize_union, List.map_flatMap]
      refine merge_congr (.flatMap fun t hm => ?_)
      have hLeaves : leaves (t.normalize first) = arms (t.normalize first) :=
        leaves_eq_arms fun _ => isLeaf_of_mem_arms_normalize
      rw [← ih t hm, ← hLeaves]
      exact (alike_arms_normalize second (t.normalize first)).symm
  | generic origin args ih =>
      have hOrigin : (if second = true then
            (if first = true then origin.concretize else origin).concretize
            else if first = true then origin.concretize else origin) =
          if (first || second) = true then origin.concretize else origin := by
        cases first <;> cases second <;> simp [origin.concretize_concretize]
      simp only [normalize, normalizeAll_eq_map, List.map_map, hOrigin]
      refine congrArg _ (List.map_congr_left fun arg hm => ?_)
      exact ih arg hm
  | _ => rfl

/-- Normalization passes compose. Each mode is idempotent, and it does not
matter whether abstract containers are replaced at once or in a second pass. -/
theorem normalization_passes_compose (t : TypeExpr) :
    (∀ first second : Bool,
        (t.normalize first).normalize second = t.normalize (first || second)) ∧
      (∀ concretize : Bool,
        (t.normalize concretize).normalize concretize = t.normalize concretize) ∧
      (t.normalize false).normalize true = t.normalize true := by
  refine ⟨fun first second => normalize_normalize first second t, fun concretize => ?_,
    normalize_normalize false true t⟩
  rw [normalize_normalize, Bool.or_self]

-- Arms that only the second pass makes equal.
example : ((union [generic .sequence [int], generic .list [int]]).normalize false).normalize true =
    generic .list [int] := rfl

end TypeExpr

end ToolSchema
