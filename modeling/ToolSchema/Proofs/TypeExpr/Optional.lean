import ToolSchema.Proofs.TypeExpr.Canonical

/-! Optional types. Normalization leaves one arm for the absent value at most. Without that arm
a union is still normal, and with the arm added again it has the arms that it had before. -/
namespace ToolSchema.TypeExpr

variable {concretize : Bool} {types : List TypeExpr} {t inner : TypeExpr}

theorem isNull_iff : t.isNull = true ↔ t = .null := by
  cases t <;> simp [isNull]

/-- The arms for values that are present. -/
def present (arms : List TypeExpr) : List TypeExpr := arms.filter fun t => !t.isNull

theorem null_not_mem_present (arms : List TypeExpr) : .null ∉ present arms := by
  intro hm
  exact absurd (List.mem_filter.mp hm).2 (by decide)

theorem present_append (a b : List TypeExpr) : present (a ++ b) = present a ++ present b :=
  List.filter_append ..

/-- It does not matter whether the absent value or the literals are taken out first. -/
theorem others_present (arms : List TypeExpr) : others (present arms) = present (others arms) := by
  rw [others, present, List.filter_filter, others, present, List.filter_filter]
  exact List.filter_congr fun t _ => Bool.and_comm _ _

theorem constants_present (arms : List TypeExpr) : constants (present arms) = constants arms := by
  induction arms with
  | nil => rfl
  | cons t arms ih =>
      cases t with
      | literal values => exact congrArg (values ++ ·) ih
      | _ => exact ih

/-! The one arm for the absent value -/

theorem beq_null_eq_false (h : t ≠ .null) : (t == .null) = false := by
  cases t <;> first | rfl | exact absurd rfl h

/-- Of distinct types only one is the absent value. -/
theorem filter_isNull (hDistinct : types.Pairwise fun earlier later => (earlier == later) = false)
    (hNull : .null ∈ types) : types.filter isNull = [.null] := by
  have hSame : ∀ t ∈ types.filter isNull, t = .null := fun t hm =>
    isNull_iff.mp (List.mem_filter.mp hm).2
  have hKept := hDistinct.sublist (List.filter_sublist (p := isNull))
  have hMem : .null ∈ types.filter isNull := List.mem_filter.mpr ⟨hNull, rfl⟩
  match hFilter : types.filter isNull with
  | [] => rw [hFilter] at hMem; cases hMem
  | [t] =>
      rw [hFilter] at hSame
      rw [hSame t List.mem_cons_self]
  | s :: t :: more =>
      rw [hFilter] at hSame hKept
      have hUnequal := List.rel_of_pairwise_cons hKept List.mem_cons_self
      rw [hSame s List.mem_cons_self, hSame t (.tail _ List.mem_cons_self)] at hUnequal
      cases hUnequal

/-- The absent value may be moved to the end. -/
theorem perm_present_null
    (hDistinct : types.Pairwise fun earlier later => (earlier == later) = false)
    (hNull : .null ∈ types) : (present types ++ [null]).Perm types := by
  have hSplit := List.filter_append_perm isNull types
  rw [filter_isNull hDistinct hNull] at hSplit
  exact List.perm_append_comm.trans hSplit

/-- Distinct arms stay distinct when the absent value is moved to the end. -/
theorem pairwise_present_null
    (hDistinct : types.Pairwise fun earlier later => (earlier == later) = false) :
    (present types ++ [null]).Pairwise fun earlier later => (earlier == later) = false := by
  refine List.pairwise_append.mpr
    ⟨hDistinct.sublist List.filter_sublist, List.pairwise_singleton _ _, fun t hm u hu => ?_⟩
  rw [List.mem_singleton.mp hu]
  exact beq_null_eq_false fun he => null_not_mem_present types (he ▸ hm)

/-! Unions without the arm -/

theorem ofArms_eq_union (h : types.length ≠ 1) : ofArms types = .union types := by
  rw [ofArms.eq_def]
  split
  · exact absurd rfl h
  · rfl

theorem any_isNull_iff : types.any isNull = true ↔ .null ∈ types := by
  simp [List.any_eq_true, isNull_iff]

/-- Unpacking a union in one equation: the other arms, if there is an absent value at all. -/
theorem unpackOptional_union (arms : List TypeExpr) :
    unpackOptional (.union arms) =
      if arms.any isNull then
        some (if (present arms).isEmpty then .null else ofArms (present arms))
      else none := by
  rw [unpackOptional, ← present]
  refine congrArg (ite _ · none) ?_
  cases present arms <;> rfl

/-- Just the unions with an arm for the absent value are optional. -/
theorem exists_unpackOptional_iff :
    (∃ inner, unpackOptional t = some inner) ↔ ∃ arms, t = .union arms ∧ .null ∈ arms := by
  constructor
  · intro h
    obtain ⟨inner, h⟩ := h
    cases t with
    | union arms =>
        rw [unpackOptional_union] at h
        split at h
        · next hNull => exact ⟨arms, rfl, any_isNull_iff.mp hNull⟩
        · cases h
    | _ => cases h
  · intro h
    obtain ⟨arms, rfl, hNull⟩ := h
    rw [unpackOptional_union, if_pos (any_isNull_iff.mpr hNull)]
    exact ⟨_, rfl⟩

/-- A canonical union has more than the absent value. -/
theorem CanonicalArms.present_ne_nil {arms : List TypeExpr} (h : CanonicalArms arms)
    (hNull : .null ∈ arms) : present arms ≠ [] := by
  intro hNone
  have hLength := (perm_present_null h.distinct hNull).length_eq
  rw [hNone] at hLength
  exact h.several hLength.symm

/-- Without the absent value a canonical union stays canonical. -/
theorem Canonical.ofArms_present {arms : List TypeExpr} (hShape : CanonicalArms arms)
    (hArms : ∀ arm ∈ arms, arm.Canonical concretize) :
    (ofArms (present arms)).Canonical concretize := by
  have hPresent : ∀ arm ∈ present arms, arm.Canonical concretize := fun arm hm =>
    hArms arm (List.mem_of_mem_filter hm)
  rw [ofArms.eq_def]
  split
  · next t hSingle => exact hPresent t (hSingle ▸ List.mem_cons_self)
  · next hSeveral =>
    refine .union ⟨fun hLength => ?_, fun arm hm => hShape.flat arm (List.mem_of_mem_filter hm),
      hShape.distinct.sublist List.filter_sublist, fun before values after hSplit => ?_⟩ hPresent
    · obtain ⟨t, hSingle⟩ := List.length_eq_one_iff.mp hLength
      exact hSeveral t hSingle
    · obtain ⟨front, back, rfl, -, hBack⟩ := List.filter_eq_append_iff.mp hSplit
      obtain ⟨between, rest, rfl, -, -, rfl⟩ := List.filter_eq_cons_iff.mp hBack
      obtain ⟨hValues, rfl⟩ := hShape.literal (front ++ between) values rest (by simp)
      exact ⟨hValues, rfl⟩

/-! Unions with the arm added again -/

theorem CanonicalArms.isLeaf {arms : List TypeExpr} (hShape : CanonicalArms arms)
    (hArms : ∀ arm ∈ arms, arm.Canonical concretize) : ∀ arm ∈ arms, arm.isLeaf = true := by
  intro arm hm
  cases hArms arm hm with
  | union _ _ => exact absurd rfl (hShape.flat _ hm _)
  | _ => rfl

/-- What is kept when the absent value comes behind the other arms: only its place changes. -/
theorem CanonicalArms.kept_present_null {arms : List TypeExpr} (hShape : CanonicalArms arms)
    (hArms : ∀ arm ∈ arms, arm.Canonical concretize) (hNull : .null ∈ arms) :
    (kept (present arms ++ [null])).Perm arms ∧
      present (kept (present arms ++ [null])) = present arms := by
  have hDistinct : (others arms).Pairwise fun earlier later => (earlier == later) = false :=
    hShape.distinct.sublist List.filter_sublist
  have hOthers : others (present arms ++ [null]) = present (others arms) ++ [null] := by
    rw [others_append, others_present]
    rfl
  have hConstants : constants (present arms ++ [null]) = constants arms := by
    rw [constants_append, constants_present]
    exact List.append_nil _
  have hLeft := List.eraseDups_of_pairwise (pairwise_distinct.mp (pairwise_present_null hDistinct))
  have hRight := List.eraseDups_of_pairwise (pairwise_distinct.mp hDistinct)
  have hPerm := perm_present_null hDistinct (List.mem_filter.mpr ⟨hNull, rfl⟩)
  have hPresent : present (present (others arms) ++ [null]) = present (others arms) := by
    rw [present_append, present, present, List.filter_filter]
    simp [present, isNull]
  have hSelf := hShape.kept_eq hArms
  rw [kept, hRight] at hSelf
  rw [kept, hOthers, hConstants, hLeft]
  split at hSelf
  · next hNone =>
    rw [if_pos hNone, hPresent]
    exact ⟨hPerm.trans (.of_eq hSelf), congrArg present hSelf⟩
  · next hSome =>
    rw [if_neg hSome, present_append, hPresent, ← present_append]
    exact ⟨(hPerm.append_right _).trans (.of_eq hSelf), congrArg present hSelf⟩

/-- Making the rest of a union optional again puts the absent value at the end. -/
theorem CanonicalArms.normalize_optional {arms : List TypeExpr} (hShape : CanonicalArms arms)
    (hArms : ∀ arm ∈ arms, arm.Canonical concretize) (hNull : .null ∈ arms) :
    (optional (ofArms (present arms))).normalize concretize =
      .union (kept (present arms ++ [null])) := by
  have hLeaf : ∀ arm ∈ present arms, arm.isLeaf = true := fun arm hm =>
    hShape.isLeaf hArms arm (List.mem_of_mem_filter hm)
  have hLeaves : leaves (optional (ofArms (present arms))) = present arms ++ [null] := by
    have hInner : leaves (ofArms (present arms)) = present arms := by
      rw [leaves_eq_arms (by rwa [arms_ofArms hLeaf]), arms_ofArms hLeaf]
    rw [optional, leaves_union, List.flatMap_cons, hInner]
    rfl
  have hNormal : (present arms ++ [null]).map (normalize concretize) = present arms ++ [null] := by
    refine (List.map_congr_left fun arm hm => ?_).trans (List.map_id _)
    rcases List.mem_append.mp hm with hm | hm
    · exact (hArms arm (List.mem_of_mem_filter hm)).normalize_eq
    · rw [List.mem_singleton.mp hm]
      rfl
  rw [optional, normalize_union_eq_merge, ← optional, hLeaves, hNormal, merge_eq]
  refine ofArms_eq_union ?_
  rw [(hShape.kept_present_null hArms hNull).1.length_eq]
  exact hShape.several

/-- A normal type can be unpacked if and only if it is a union with an arm for the absent value.
What is unpacked is normal and cannot be unpacked again, and as an optional type it normalizes
to the same arms, of which only the absent value may have changed its place. -/
theorem unpackOptional_normalize (concretize : Bool) (t : TypeExpr) :
    ((∃ inner, unpackOptional (t.normalize concretize) = some inner) ↔
        ∃ arms, t.normalize concretize = .union arms ∧ .null ∈ arms) ∧
      ∀ inner, unpackOptional (t.normalize concretize) = some inner →
        inner.normalize concretize = inner ∧ unpackOptional inner = none ∧
          ∃ arms again, t.normalize concretize = .union arms ∧
            (optional inner).normalize concretize = .union again ∧ again.Perm arms ∧
              again.filter (fun arm => !arm.isNull) = arms.filter fun arm => !arm.isNull := by
  refine ⟨exists_unpackOptional_iff, fun inner h => ?_⟩
  obtain ⟨arms, hUnion, hNull⟩ := exists_unpackOptional_iff.mp ⟨inner, h⟩
  have hCanonical := canonical_normalize concretize t
  rw [hUnion] at hCanonical h
  cases hCanonical with
  | union hShape hArms =>
    have hPresent := hShape.present_ne_nil hNull
    rw [unpackOptional_union, if_pos (any_isNull_iff.mpr hNull),
      if_neg fun hNone => hPresent (List.isEmpty_iff.mp hNone)] at h
    obtain rfl := Option.some.inj h
    refine ⟨(Canonical.ofArms_present hShape hArms).normalize_eq, ?_, arms, _, hUnion,
      hShape.normalize_optional hArms hNull, hShape.kept_present_null hArms hNull⟩
    refine Option.eq_none_iff_forall_ne_some.mpr fun inner hInner => ?_
    obtain ⟨rest, hRest, hm⟩ := exists_unpackOptional_iff.mp ⟨inner, hInner⟩
    rw [ofArms.eq_def] at hRest
    split at hRest
    · next single hSingle =>
      have hArm : single ∈ present arms := hSingle ▸ List.mem_cons_self
      exact hShape.flat single (List.mem_of_mem_filter hArm) rest hRest
    · cases hRest
      exact null_not_mem_present arms hm

-- The absent value stands behind the other types, but before the literal.
example : unpackOptional (.union [.null, .int, .literal [.bool true]]) =
      some (.union [.int, .literal [.bool true]]) ∧
    (optional (.union [.int, .literal [.bool true]])).normalize false =
      .union [.int, .null, .literal [.bool true]] := ⟨rfl, rfl⟩

end ToolSchema.TypeExpr
