import ToolSchema.Proofs.TypeExpr.Display
import ToolSchema.Proofs.TypeExpr.Normal

/-! Types that differ only in the classes they name. Where classes stand for each
other one to one, normalization treats such types in the same way. -/
namespace ToolSchema.TypeExpr

variable {r : ClassRef → ClassRef → Prop}

/-- The same types, except that classes are related. -/
inductive Matches (r : ClassRef → ClassRef → Prop) : TypeExpr → TypeExpr → Prop
  | any : Matches r .any .any
  | null : Matches r .null .null
  | int : Matches r .int .int
  | float : Matches r .float .float
  | str : Matches r .str .str
  | bool : Matches r .bool .bool
  | named (name : String) {s t : TypeExpr} (h : Matches r s t) :
      Matches r (.alias name s) (.alias name t)
  | tagged (tags : List String) {s t : TypeExpr} (h : Matches r s t) :
      Matches r (.tagged s tags) (.tagged t tags)
  | literal (values : List Constant) : Matches r (.literal values) (.literal values)
  | union {ss ts : List TypeExpr} (hLength : ss.length = ts.length)
      (h : ∀ s t, (s, t) ∈ ss.zip ts → Matches r s t) : Matches r (.union ss) (.union ts)
  | generic (origin : Origin) {ss ts : List TypeExpr} (hLength : ss.length = ts.length)
      (h : ∀ s t, (s, t) ∈ ss.zip ts → Matches r s t) :
      Matches r (.generic origin ss) (.generic origin ts)
  | ellipsis : Matches r .ellipsis .ellipsis
  | classRef {a b : ClassRef} (h : r a b) : Matches r (.classRef a) (.classRef b)

theorem matches_union {ss ts : List TypeExpr} (h : List.Forall₂ (Matches r) ss ts) :
    Matches r (.union ss) (.union ts) :=
  .union h.length_eq fun _ _ => List.forall₂_zip h

theorem matches_generic (origin : Origin) {ss ts : List TypeExpr}
    (h : List.Forall₂ (Matches r) ss ts) : Matches r (.generic origin ss) (.generic origin ts) :=
  .generic origin h.length_eq fun _ _ => List.forall₂_zip h

/-- Two changes of classes in a row are one. -/
theorem Matches.chain {q p : ClassRef → ClassRef → Prop} (hp : ∀ a b c, r a b → q b c → p a c)
    {s t u : TypeExpr} (h : Matches r s t) (h' : Matches q t u) : Matches p s u := by
  induction h generalizing u with
  | named name _ ih =>
      cases h' with
      | named _ h => exact .named name (ih h)
  | tagged tags _ ih =>
      cases h' with
      | tagged _ h => exact .tagged tags (ih h)
  | union hLength _ ih =>
      cases h' with
      | union hLength' h' =>
        exact matches_union ((List.forall₂_iff_zip.mpr ⟨hLength, ih _ _⟩).chain
          (List.forall₂_iff_zip.mpr ⟨hLength', h' _ _⟩) fun _ _ _ hst htu => hst htu)
  | generic origin hLength _ ih =>
      cases h' with
      | generic _ hLength' h' =>
        exact matches_generic origin ((List.forall₂_iff_zip.mpr ⟨hLength, ih _ _⟩).chain
          (List.forall₂_iff_zip.mpr ⟨hLength', h' _ _⟩) fun _ _ _ hst htu => hst htu)
  | classRef h =>
      cases h' with
      | classRef h' => exact .classRef (hp _ _ _ h h')
  | _ =>
      cases h'
      constructor

/-- Matching types are written in the same way if classes keep their names. -/
theorem Matches.text_eq (hName : ∀ a b, r a b → a.name = b.name) {s t : TypeExpr}
    (h : Matches r s t) : s.text = t.text := by
  induction h with
  | tagged tags _ ih => rw [text, text, ih]
  | union hLength _ ih =>
      rw [text, text, textAll_eq_map, textAll_eq_map,
        (List.forall₂_iff_zip.mpr ⟨hLength, ih _ _⟩).map_eq]
  | @generic origin ss ts hLength _ ih =>
      have hTexts := (List.forall₂_iff_zip.mpr ⟨hLength, ih _ _⟩).map_eq
      cases ss with
      | nil =>
          cases ts with
          | nil => rfl
          | cons t ts => cases hLength
      | cons s ss =>
          cases ts with
          | nil => cases hLength
          | cons t ts => rw [text_generic_cons, text_generic_cons, hTexts]
  | classRef h => exact hName _ _ h
  | _ => rfl

/-! Parts of unions -/

theorem matches_map {f : TypeExpr → TypeExpr} {ss ts : List TypeExpr} (hLength : ss.length = ts.length)
    (h : ∀ s t, (s, t) ∈ ss.zip ts → Matches r (f s) (f t)) :
    List.Forall₂ (Matches r) (ss.map f) (ts.map f) := by
  rw [List.forall₂_map_left_iff, List.forall₂_map_right_iff]
  exact List.forall₂_iff_zip.mpr ⟨hLength, h _ _⟩

theorem isLiteral_eq {s t : TypeExpr} (h : Matches r s t) : s.isLiteral = t.isLiteral := by
  cases h <;> rfl

/-- Classes are no constants, so types that match have the same ones. -/
theorem constants_eq {ss ts : List TypeExpr} (h : List.Forall₂ (Matches r) ss ts) :
    constants ss = constants ts := by
  induction h with
  | nil => rfl
  | cons hHead _ ih =>
      cases hHead with
      | literal values => rw [constants, constants, ih]
      | _ => exact ih

theorem matches_arms {s t : TypeExpr} (h : Matches r s t) :
    List.Forall₂ (Matches r) s.arms t.arms := by
  cases h with
  | union hLength h => exact List.forall₂_iff_zip.mpr ⟨hLength, h _ _⟩
  | _ => exact .cons (by constructor <;> assumption) .nil

theorem matches_ofArms {ss ts : List TypeExpr} (h : List.Forall₂ (Matches r) ss ts) :
    Matches r (ofArms ss) (ofArms ts) := by
  cases h with
  | nil => exact matches_union .nil
  | cons hFirst hMore =>
      cases hMore with
      | nil => exact hFirst
      | cons hSecond hMore => exact matches_union (.cons hFirst (.cons hSecond hMore))

/-! Classes that stand for each other one to one -/

theorem sameAll_eq {ss ts ss' ts' : List TypeExpr}
    (h : List.Forall₂ (fun s t => ∀ s' t', Matches r s' t' → same s s' = same t t') ss ts)
    (h' : List.Forall₂ (Matches r) ss' ts') : sameAll ss ss' = sameAll ts ts' := by
  induction h generalizing ss' ts' with
  | nil => cases h' <;> rfl
  | cons hHead _ ih =>
      cases h' with
      | nil => rfl
      | cons hHead' hTail' => rw [sameAll, sameAll, hHead _ _ hHead', ih hTail']

section

variable (hUnique : ∀ a b a' b', r a b → r a' b' → (a.index = a'.index ↔ b.index = b'.index))

include hUnique

/-- If classes stand for each other one to one, equality comes out the same on both sides. -/
theorem same_eq {s t s' t' : TypeExpr} (h : Matches r s t) (h' : Matches r s' t') :
    same s s' = same t t' := by
  induction h generalizing s' t' with
  | named name _ ih =>
      cases h' with
      | named name' h' => rw [same, same, ih h']
      | _ => rfl
  | tagged tags _ ih =>
      cases h' with
      | tagged tags' h' => rw [same, same, ih h']
      | _ => rfl
  | union hLength _ ih =>
      cases h' with
      | union hLength' h' =>
        rw [same, same]
        exact sameAll_eq (List.forall₂_iff_zip.mpr ⟨hLength, fun hm _ _ hOther => ih _ _ hm hOther⟩)
          (List.forall₂_iff_zip.mpr ⟨hLength', h' _ _⟩)
      | _ => rfl
  | generic origin hLength _ ih =>
      cases h' with
      | generic origin' hLength' h' =>
        have hArgs := sameAll_eq
          (List.forall₂_iff_zip.mpr ⟨hLength, fun hm _ _ hOther => ih _ _ hm hOther⟩)
          (List.forall₂_iff_zip.mpr ⟨hLength', h' _ _⟩)
        rw [same, same, hArgs]
      | _ => rfl
  | classRef h =>
      cases h' with
      | classRef h' =>
        rw [same, same, Bool.eq_iff_iff, beq_iff_eq, beq_iff_eq]
        exact hUnique _ _ _ _ h h'
      | _ => rfl
  | _ => cases h' <;> rfl

/-- So merging keeps arms at the same places on both sides. -/
theorem matches_merge {ss ts : List TypeExpr} (h : List.Forall₂ (Matches r) ss ts) :
    Matches r (merge ss) (merge ts) := by
  have hOthers : List.Forall₂ (Matches r) (others ss).eraseDups (others ts).eraseDups := by
    refine List.Forall₂.eraseDups_of_beq_eq (fun _ _ _ _ => same_eq hUnique) ?_
    refine List.rel_filter (fun s t hst => ?_) h
    change (!s.isLiteral) = true ↔ (!t.isLiteral) = true
    rw [isLiteral_eq hst]
  rw [merge_eq, merge_eq, kept, kept, constants_eq h]
  split
  · exact matches_ofArms hOthers
  · exact matches_ofArms (List.rel_append hOthers (.cons (.literal _) .nil))

/-- Canonical forms of matching types match. -/
theorem Matches.normalize (concretize : Bool) {s t : TypeExpr} (h : Matches r s t) :
    Matches r (s.normalize concretize) (t.normalize concretize) := by
  induction h with
  | named _ _ ih => exact ih
  | tagged _ _ ih => exact ih
  | literal values => exact .literal values.eraseDups
  | union hLength _ ih =>
      rw [TypeExpr.normalize, TypeExpr.normalize, normalizeAll_eq_map, normalizeAll_eq_map]
      exact matches_merge hUnique (List.rel_flatMap (matches_map hLength ih) fun _ _ => matches_arms)
  | generic origin hLength _ ih =>
      rw [TypeExpr.normalize, TypeExpr.normalize, normalizeAll_eq_map, normalizeAll_eq_map]
      exact matches_generic _ (matches_map hLength ih)
  | classRef h => exact .classRef h
  | _ => constructor

end

end ToolSchema.TypeExpr
