import ToolSchema.Proofs.Distinct
import ToolSchema.Proofs.TypeExpr.Equality

/-! What normalization does to the leaves of a type. A union comes out as if
all leaves below it were merged at once, and merging keeps no more of them than
which types and which constants come first. -/
namespace ToolSchema.TypeExpr

theorem normalizeAll_eq_map (concretize : Bool) (types : List TypeExpr) :
    normalizeAll concretize types = types.map (normalize concretize) := by
  induction types with
  | nil => rfl
  | cons t more ih => rw [normalizeAll, ih, List.map_cons]

/-- Normalization does not turn a leaf into a literal, nor a literal into something else. -/
theorem isLiteral_normalize {t : TypeExpr} (concretize : Bool) (h : t.isLeaf = true) :
    (t.normalize concretize).isLiteral = t.isLiteral := by
  induction t using TypeExpr.induction with
  | named _ _ _ => cases h
  | tagged _ _ _ => cases h
  | union _ _ => cases h
  | _ => rfl

/-! Merging -/

def others (types : List TypeExpr) : List TypeExpr := types.filter fun t => !t.isLiteral

theorem others_append (a b : List TypeExpr) : others (a ++ b) = others a ++ others b :=
  List.filter_append ..

theorem others_cons_of_not_literal {t : TypeExpr} (more : List TypeExpr)
    (h : t.isLiteral = false) : others (t :: more) = t :: others more :=
  List.filter_cons_of_pos (by rw [h, Bool.not_false])

theorem constants_cons_of_not_literal {t : TypeExpr} (more : List TypeExpr)
    (h : t.isLiteral = false) : constants (t :: more) = constants more := by
  cases t <;> first | rfl | cases h

theorem constants_append (a b : List TypeExpr) :
    constants (a ++ b) = constants a ++ constants b := by
  induction a with
  | nil => rfl
  | cons t a ih =>
      cases hLiteral : t.isLiteral with
      | false =>
          rw [List.cons_append, constants_cons_of_not_literal _ hLiteral, ih,
            constants_cons_of_not_literal _ hLiteral]
      | true =>
          cases t with
          | literal values => rw [List.cons_append, constants, ih, constants, List.append_assoc]
          | _ => cases hLiteral

/-- What is no literal has no constants. -/
theorem constants_others (types : List TypeExpr) : constants (others types) = [] := by
  induction types with
  | nil => rfl
  | cons t types ih =>
      rw [others, List.filter_cons]
      split
      · next hOther =>
        rw [constants_cons_of_not_literal _ (by simpa using hOther)]
        exact ih
      · exact ih

def kept (leaves : List TypeExpr) : List TypeExpr :=
  if (constants leaves).eraseDups.isEmpty then (others leaves).eraseDups
  else (others leaves).eraseDups ++ [.literal (constants leaves).eraseDups]

theorem merge_eq (leaves : List TypeExpr) : merge leaves = ofArms (kept leaves) := rfl

/-- Lists of leaves that make the same union. -/
structure Alike (a b : List TypeExpr) : Prop where
  others : (others a).eraseDups = (others b).eraseDups
  constants : (constants a).eraseDups = (constants b).eraseDups

/-- Merging sees no more of the leaves than which types and which constants come first. -/
theorem merge_congr {a b : List TypeExpr} (h : Alike a b) : merge a = merge b := by
  rw [merge_eq, merge_eq, kept, kept, h.others, h.constants]

theorem Alike.refl (a : List TypeExpr) : Alike a a := ⟨rfl, rfl⟩

theorem Alike.symm {a b : List TypeExpr} (h : Alike a b) : Alike b a :=
  ⟨h.others.symm, h.constants.symm⟩

theorem Alike.trans {a b c : List TypeExpr} (hab : Alike a b) (hbc : Alike b c) : Alike a c :=
  ⟨hab.others.trans hbc.others, hab.constants.trans hbc.constants⟩

/-- Lists that make the same union may be replaced on both sides. -/
theorem Alike.append {a a' b b' : List TypeExpr} (ha : Alike a a') (hb : Alike b b') :
    Alike (a ++ b) (a' ++ b') := by
  constructor
  · rw [others_append, others_append, List.eraseDups_append_congr ha.others hb.others]
  · rw [constants_append, constants_append,
      List.eraseDups_append_congr ha.constants hb.constants]

theorem Alike.flatMap {α : Type} {items : List α} {f g : α → List TypeExpr}
    (h : ∀ item ∈ items, Alike (f item) (g item)) : Alike (items.flatMap f) (items.flatMap g) := by
  induction items with
  | nil => exact .refl _
  | cons item items ih =>
      rw [List.forall_mem_cons] at h
      rw [List.flatMap_cons, List.flatMap_cons]
      exact h.1.append (ih h.2)

/-- Merging keeps the first of equal types. -/
theorem others_kept (leaves : List TypeExpr) :
    others (kept leaves) = (others leaves).eraseDups := by
  have hSelf : others (others leaves).eraseDups = (others leaves).eraseDups := by
    refine List.filter_eq_self.mpr fun t hm => ?_
    exact (List.mem_filter.mp (List.mem_of_mem_eraseDups hm)).2
  rw [kept]
  split
  · exact hSelf
  · rw [others_append, hSelf]
    exact List.append_nil _

/-- Merging keeps the first of equal constants. -/
theorem constants_kept (leaves : List TypeExpr) :
    constants (kept leaves) = (constants leaves).eraseDups := by
  have hNone : constants (others leaves).eraseDups = [] := by
    rw [← others_kept, constants_others]
  rw [kept]
  split
  · next hEmpty => rw [hNone, List.isEmpty_iff.mp hEmpty]
  · rw [constants_append, hNone, constants, constants, List.append_nil, List.nil_append]

theorem alike_kept (leaves : List TypeExpr) : Alike (kept leaves) leaves := by
  constructor
  · rw [others_kept, List.eraseDups_eraseDups]
  · rw [constants_kept, List.eraseDups_eraseDups]

theorem isLiteral_of_mem_others {types : List TypeExpr} {t : TypeExpr} (h : t ∈ others types) :
    t.isLiteral = false := by
  simpa using (List.mem_filter.mp h).2

/-- What is kept was there before, unless it is the literal of all constants. -/
theorem of_mem_kept {leaves : List TypeExpr} {t : TypeExpr} (h : t ∈ kept leaves) :
    (t ∈ leaves ∧ t.isLiteral = false) ∨
      ((constants leaves).eraseDups ≠ [] ∧ t = .literal (constants leaves).eraseDups) := by
  have hOther (hm : t ∈ (others leaves).eraseDups) : t ∈ leaves ∧ t.isLiteral = false :=
    have hm := List.mem_of_mem_eraseDups hm
    ⟨(List.mem_filter.mp hm).1, isLiteral_of_mem_others hm⟩
  rw [kept] at h
  split at h
  · exact .inl (hOther h)
  · next hSome =>
    rcases List.mem_append.mp h with hm | hm
    · exact .inl (hOther hm)
    · exact .inr ⟨fun hNone => hSome (List.isEmpty_iff.mpr hNone), List.mem_singleton.mp hm⟩

/-- Merging does not make anything but leaves out of leaves. -/
theorem isLeaf_of_mem_kept {leaves : List TypeExpr} (h : ∀ leaf ∈ leaves, leaf.isLeaf = true)
    {t : TypeExpr} (hm : t ∈ kept leaves) : t.isLeaf = true := by
  rcases of_mem_kept hm with ⟨ht, _⟩ | ⟨_, rfl⟩
  · exact h t ht
  · rfl

/-- Arms that are leaves come back out of the union they make. -/
theorem arms_ofArms {leaves : List TypeExpr} (h : ∀ leaf ∈ leaves, leaf.isLeaf = true) :
    arms (ofArms leaves) = leaves := by
  rw [ofArms.eq_def]
  split
  · exact arms_of_isLeaf (h _ List.mem_cons_self)
  · rfl

theorem arms_merge {leaves : List TypeExpr} (h : ∀ leaf ∈ leaves, leaf.isLeaf = true) :
    arms (merge leaves) = kept leaves := by
  rw [merge_eq, arms_ofArms fun _ hm => isLeaf_of_mem_kept h hm]

/-! Normal types -/

theorem normalize_union (concretize : Bool) (types : List TypeExpr) :
    normalize concretize (.union types) =
      merge (types.flatMap fun t => arms (normalize concretize t)) := by
  rw [normalize, normalizeAll_eq_map, List.flatMap_map]

/-- No union is left inside a normalized one, nor a name or a tag around an arm. -/
theorem isLeaf_of_mem_arms_normalize {concretize : Bool} {t u : TypeExpr}
    (h : u ∈ arms (t.normalize concretize)) : u.isLeaf = true := by
  induction t using TypeExpr.induction generalizing u with
  | named _ _ ih => exact ih h
  | tagged _ _ ih => exact ih h
  | union types ih =>
      have hLeaf : ∀ leaf ∈ types.flatMap fun t => arms (normalize concretize t),
          leaf.isLeaf = true := by
        intro leaf hm
        obtain ⟨t, ht, hm⟩ := List.mem_flatMap.mp hm
        exact ih t ht hm
      rw [normalize_union, arms_merge hLeaf] at h
      exact isLeaf_of_mem_kept hLeaf h
  | _ =>
      rw [List.mem_singleton.mp h]
      rfl

/-- The arms of a normalized union, as what merging keeps of those of its members. -/
theorem arms_normalize_union (concretize : Bool) (types : List TypeExpr) :
    arms (normalize concretize (.union types)) =
      kept (types.flatMap fun t => arms (normalize concretize t)) := by
  rw [normalize_union]
  refine arms_merge fun leaf hm => ?_
  obtain ⟨t, _, hm⟩ := List.mem_flatMap.mp hm
  exact isLeaf_of_mem_arms_normalize hm

/-- The arms of a normal type make the same union as its leaves do, each of
them normalized on its own. -/
theorem alike_arms_normalize (concretize : Bool) (t : TypeExpr) :
    Alike (arms (t.normalize concretize)) ((leaves t).map (normalize concretize)) := by
  induction t using TypeExpr.induction with
  | named _ _ ih => exact ih
  | tagged _ _ ih => exact ih
  | union types ih =>
      rw [arms_normalize_union, leaves_union, List.map_flatMap]
      exact (alike_kept _).trans (.flatMap ih)
  | _ => exact .refl _

/-- A union is normalized in one pass over its leaves. -/
theorem normalize_union_eq_merge (concretize : Bool) (types : List TypeExpr) :
    normalize concretize (.union types) =
      merge ((leaves (.union types)).map (normalize concretize)) := by
  rw [normalize_union, leaves_union, List.map_flatMap]
  exact merge_congr (.flatMap fun t _ => alike_arms_normalize concretize t)

/-- Where all arms are leaves, there is nothing below them. -/
theorem leaves_eq_arms {t : TypeExpr} (h : ∀ u ∈ arms t, u.isLeaf = true) : leaves t = arms t := by
  induction t using TypeExpr.induction with
  | named _ _ _ => cases h _ List.mem_cons_self
  | tagged _ _ _ => cases h _ List.mem_cons_self
  | union types _ =>
      rw [leaves_union]
      change ∀ u ∈ types, u.isLeaf = true at h
      change types.flatMap leaves = types
      rw [List.flatMap_congr fun u hm => leaves_of_isLeaf (h u hm), List.flatMap_singleton']
  | _ => rfl

end ToolSchema.TypeExpr
