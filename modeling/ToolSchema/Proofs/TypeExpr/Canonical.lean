import ToolSchema.Proofs.TypeExpr.Composition

/-! Canonical types, described without normalization: normalization makes them
and leaves them alone. -/
namespace ToolSchema.TypeExpr

/-- What the arms of a canonical union look like from outside. A literal that
comes last is the only one. -/
structure CanonicalArms (arms : List TypeExpr) : Prop where
  several : arms.length ≠ 1
  flat : ∀ arm ∈ arms, ∀ inner, arm ≠ .union inner
  distinct : arms.Pairwise fun earlier later => (earlier == later) = false
  literal : ∀ before values after, arms = before ++ .literal values :: after →
    values ≠ [] ∧ after = []

/-- Types without names and tags, in which no union can be written with fewer
or simpler arms. On request no container is abstract. -/
inductive Canonical (concretize : Bool) : TypeExpr → Prop
  | any : Canonical concretize .any
  | null : Canonical concretize .null
  | int : Canonical concretize .int
  | float : Canonical concretize .float
  | str : Canonical concretize .str
  | bool : Canonical concretize .bool
  | literal {values : List Constant}
      (hDistinct : values.Pairwise fun earlier later => (earlier == later) = false) :
      Canonical concretize (.literal values)
  | union {arms : List TypeExpr} (hShape : CanonicalArms arms)
      (hArms : ∀ arm ∈ arms, Canonical concretize arm) : Canonical concretize (.union arms)
  | generic {origin : Origin} {args : List TypeExpr}
      (hOrigin : concretize = true → origin.isAbstract = false)
      (hArgs : ∀ arg ∈ args, Canonical concretize arg) :
      Canonical concretize (.generic origin args)
  | ellipsis : Canonical concretize .ellipsis
  | classRef (ref : ClassRef) : Canonical concretize (.classRef ref)

variable {concretize : Bool}

/-- The arms of a canonical type are canonical. -/
theorem Canonical.of_mem_arms {t u : TypeExpr} (h : t.Canonical concretize) (hm : u ∈ arms t) :
    u.Canonical concretize := by
  have hAlone (hm : u ∈ [t]) : u.Canonical concretize := List.mem_singleton.mp hm ▸ h
  cases h with
  | union _ hArms => exact hArms u hm
  | _ => exact hAlone hm

/-- Equality is symmetric, so it does not matter which of two elements is tested against the
other. -/
theorem pairwise_distinct {α : Type} [BEq α] [PartialEquivBEq α] {items : List α} :
    (items.Pairwise fun earlier later => (earlier == later) = false) ↔
      items.Pairwise fun earlier later => (later == earlier) = false := by
  simp only [BEq.comm]

/-! Normalization makes canonical types -/

/-- Canonical leaves are kept as they are, and the literal that merging makes has distinct
constants. -/
theorem canonical_kept {leaves : List TypeExpr} (h : ∀ leaf ∈ leaves, leaf.Canonical concretize)
    {t : TypeExpr} (hm : t ∈ kept leaves) : t.Canonical concretize := by
  rcases of_mem_kept hm with ⟨ht, _⟩ | ⟨_, rfl⟩
  · exact h t ht
  · exact .literal (pairwise_distinct.mpr (List.pairwise_eraseDups _))

/-- No two arms that merging keeps are equal. -/
theorem pairwise_kept (leaves : List TypeExpr) :
    (kept leaves).Pairwise fun earlier later => (earlier == later) = false := by
  have hOthers := pairwise_distinct.mpr (List.pairwise_eraseDups (others leaves))
  rw [kept]
  split
  · exact hOthers
  · refine List.pairwise_append.mpr ⟨hOthers, List.pairwise_singleton _ _, fun t hm u hu => ?_⟩
    rw [List.mem_singleton.mp hu]
    refine Bool.eq_false_iff.mpr fun hEqual => ?_
    have hLiteral := (beq_iff_equal.mp hEqual).isLiteral_eq
    rw [isLiteral_of_mem_others (List.mem_of_mem_eraseDups hm)] at hLiteral
    cases hLiteral

/-- At most one literal is kept, as the last arm and with constants in it. -/
theorem literal_kept {leaves before after : List TypeExpr} {values : List Constant}
    (h : kept leaves = before ++ .literal values :: after) : values ≠ [] ∧ after = [] := by
  have hLiteral : .literal values ∈ kept leaves := h ▸ List.mem_append_right _ List.mem_cons_self
  refine ⟨fun he => ne_empty_of_mem_kept hLiteral (congrArg _ he), ?_⟩
  have hOther {front back : List TypeExpr}
      (he : (others leaves).eraseDups = front ++ .literal values :: back) : False := by
    have hm : .literal values ∈ (others leaves).eraseDups :=
      he ▸ List.mem_append_right _ List.mem_cons_self
    exact absurd (isLiteral_of_mem_others (List.mem_of_mem_eraseDups hm)) nofun
  rw [kept] at h
  split at h
  · exact (hOther h).elim
  · rcases List.eq_nil_or_concat after with rfl | ⟨front, last, rfl⟩
    · rfl
    · rw [List.concat_eq_append, ← List.cons_append, ← List.append_assoc] at h
      exact (hOther (List.append_inj_left' h rfl)).elim

/-- Merging canonical leaves makes a canonical type. -/
theorem canonical_merge {leaves : List TypeExpr} (hLeaf : ∀ leaf ∈ leaves, leaf.isLeaf = true)
    (h : ∀ leaf ∈ leaves, leaf.Canonical concretize) : (merge leaves).Canonical concretize := by
  rw [merge_eq, ofArms.eq_def]
  split
  · next t hKept => exact canonical_kept h (hKept ▸ List.mem_cons_self)
  · next hSeveral =>
    refine .union ⟨fun hLength => ?_, fun arm hm inner he => ?_, pairwise_kept leaves,
      fun _ _ _ => literal_kept⟩ fun arm hm => canonical_kept h hm
    · obtain ⟨t, hKept⟩ := List.length_eq_one_iff.mp hLength
      exact hSeveral t hKept
    · subst he
      cases isLeaf_of_mem_kept hLeaf hm

/-- Every normal form is canonical. -/
theorem canonical_normalize (concretize : Bool) (t : TypeExpr) :
    (t.normalize concretize).Canonical concretize := by
  induction t using TypeExpr.induction with
  | named _ _ ih => exact ih
  | tagged _ _ ih => exact ih
  | literal values => exact .literal (pairwise_distinct.mpr (List.pairwise_eraseDups _))
  | union types ih =>
      rw [normalize_union]
      refine canonical_merge (fun leaf hm => ?_) fun leaf hm => ?_
      · obtain ⟨t, _, hm⟩ := List.mem_flatMap.mp hm
        exact isLeaf_of_mem_arms_normalize hm
      · obtain ⟨t, ht, hm⟩ := List.mem_flatMap.mp hm
        exact (ih t ht).of_mem_arms hm
  | generic origin args ih =>
      rw [normalize, normalizeAll_eq_map]
      refine .generic (fun hConcrete => ?_) (List.forall_mem_map.mpr ih)
      rw [if_pos hConcrete, Origin.isAbstract, origin.concretize_concretize]
      exact bne_self_eq_false _
  | _ => constructor

/-! Normalization leaves canonical types alone -/

theorem others_eq_self {types : List TypeExpr} (h : ∀ t ∈ types, t.isLiteral = false) :
    others types = types :=
  List.filter_eq_self.mpr fun t hm => by rw [h t hm, Bool.not_false]

theorem constants_eq_nil {types : List TypeExpr} (h : ∀ t ∈ types, t.isLiteral = false) :
    constants types = [] := by
  rw [← others_eq_self h, constants_others]

/-- Only the last arm can be a literal. -/
theorem CanonicalArms.split {arms : List TypeExpr} (h : CanonicalArms arms) :
    (∀ arm ∈ arms, arm.isLiteral = false) ∨
      ∃ front values, arms = front ++ [.literal values] ∧ values ≠ [] ∧
        ∀ arm ∈ front, arm.isLiteral = false := by
  by_cases hLiteral : ∃ values, .literal values ∈ arms
  · obtain ⟨values, hm⟩ := hLiteral
    obtain ⟨front, after, rfl⟩ := List.append_of_mem hm
    obtain ⟨hValues, rfl⟩ := h.literal front values after rfl
    refine .inr ⟨front, values, rfl, hValues, fun arm hm => ?_⟩
    cases arm with
    | literal others =>
        obtain ⟨before, between, rfl⟩ := List.append_of_mem hm
        have hLast := (h.literal before others (between ++ [.literal values]) (by simp)).2
        exact absurd hLast (List.append_ne_nil_of_right_ne_nil _ (List.cons_ne_nil _ _))
    | _ => rfl
  · refine .inl fun arm hm => ?_
    cases arm with
    | literal values => exact absurd ⟨values, hm⟩ hLiteral
    | _ => rfl

/-- Merging takes nothing from canonical arms. -/
theorem CanonicalArms.kept_eq {arms : List TypeExpr} (h : CanonicalArms arms)
    (hArms : ∀ arm ∈ arms, arm.Canonical concretize) : kept arms = arms := by
  have hDistinct := pairwise_distinct.mp h.distinct
  rcases h.split with hOther | ⟨front, values, rfl, hValues, hFront⟩
  · rw [kept, constants_eq_nil hOther, others_eq_self hOther]
    exact List.eraseDups_of_pairwise hDistinct
  · have hOthers : (others (front ++ [.literal values])).eraseDups = front := by
      rw [others_append, others_eq_self hFront]
      exact (congrArg _ (List.append_nil front)).trans
        (List.eraseDups_of_pairwise (List.pairwise_append.mp hDistinct).1)
    have hConstants : (constants (front ++ [.literal values])).eraseDups = values := by
      rw [constants_append, constants_eq_nil hFront, List.nil_append, constants, constants,
        List.append_nil]
      cases hArms _ (List.mem_append_right _ List.mem_cons_self) with
      | literal hUnequal => exact List.eraseDups_of_pairwise (pairwise_distinct.mp hUnequal)
    rw [kept, hOthers, hConstants, if_neg fun hNone => hValues (List.isEmpty_iff.mp hNone)]

/-- Normalization leaves a canonical type as it is. -/
theorem Canonical.normalize_eq {t : TypeExpr} (h : t.Canonical concretize) :
    t.normalize concretize = t := by
  induction h with
  | literal hDistinct =>
      exact congrArg _ (List.eraseDups_of_pairwise (pairwise_distinct.mp hDistinct))
  | @union types hShape hArms ih =>
      have hTypes : (types.flatMap fun t => arms (t.normalize concretize)) = types := by
        refine (List.flatMap_congr fun t hm => ?_).trans (List.flatMap_singleton' types)
        rw [ih t hm]
        cases t with
        | union inner => exact absurd rfl (hShape.flat _ hm inner)
        | _ => rfl
      rw [normalize_union, hTypes, merge_eq, hShape.kept_eq hArms, ofArms.eq_def]
      split
      · exact absurd rfl hShape.several
      · rfl
  | @generic origin args hOrigin _ ih =>
      have hConcrete : (if concretize then origin.concretize else origin) = origin := by
        split
        · next hOn => exact bne_eq_false_iff_eq.mp (hOrigin hOn)
        · rfl
      rw [normalize, normalizeAll_eq_map, hConcrete, List.map_congr_left ih, List.map_id']
  | _ => rfl

/-- The canonical types are the results of normalization, and they are the
types that normalization does not change. -/
theorem canonical_iff_fixed (concretize : Bool) (t : TypeExpr) :
    (t.normalize concretize).Canonical concretize ∧
      (t.normalize concretize = t ↔ t.Canonical concretize) := by
  refine ⟨canonical_normalize concretize t, fun h => ?_, fun h => h.normalize_eq⟩
  rw [← h]
  exact canonical_normalize concretize t

end ToolSchema.TypeExpr
