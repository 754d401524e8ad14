import ToolSchema.Proofs.TypeExpr.Composition

/-! The values that a type admits, read off the type as it is written, and how
little of that depends on normalization. -/
namespace ToolSchema

/-- Equal constants accept the same values. -/
theorem Constant.accepts_congr {a b : Constant} (h : (a == b) = true) (value : Json)
    (ha : a.accepts value = true) : b.accepts value = true := by
  change a.same b = true at h
  cases a <;> cases b <;> simp only [same, beq_iff_eq, Bool.false_eq_true] at h
  case float.float x y =>
    simp only [Constant.accepts] at ha ⊢
    split at ha
    · exact Binary64.numEq_trans ha h
    · cases ha
  all_goals exact h ▸ ha

namespace TypeExpr

/-- The values that a type admits, given those of classes. The absent value
belongs to unions only: a union admits null if it is among its leaves. -/
inductive Admits (classes : ClassRef → Json → Prop) : TypeExpr → Json → Prop
  | int (n : Int64) : Admits classes .int (.int n.toInt)
  | float (x : Binary64) : Admits classes .float (.float x)
  | floatOfInt (n : Int) : Admits classes .float (.int n)
  | str (text : String) : Admits classes .str (.str text)
  | bool (b : Bool) : Admits classes .bool (.bool b)
  | named (name : String) {target : TypeExpr} {value : Json} (h : Admits classes target value) :
      Admits classes (.alias name target) value
  | tagged (tags : List String) {inner : TypeExpr} {value : Json} (h : Admits classes inner value) :
      Admits classes (.tagged inner tags) value
  | literal {values : List Constant} {constant : Constant} {value : Json}
      (hOption : constant ∈ values) (hAccepts : constant.accepts value = true) :
      Admits classes (.literal values) value
  | union {arms : List TypeExpr} {arm : TypeExpr} {value : Json} (hArm : arm ∈ arms)
      (h : Admits classes arm value) : Admits classes (.union arms) value
  | null {arms : List TypeExpr} (hNull : .null ∈ leaves (.union arms)) :
      Admits classes (.union arms) .null
  | list {origin : Origin} {item : TypeExpr} {items : List Json}
      (hOrigin : origin.concretize = .list) (hItems : ∀ value ∈ items, Admits classes item value) :
      Admits classes (.generic origin [item]) (.array items)
  | repeated {origin : Origin} {item : TypeExpr} {items : List Json}
      (hOrigin : origin.concretize = .tuple) (hItems : ∀ value ∈ items, Admits classes item value) :
      Admits classes (.generic origin [item, .ellipsis]) (.array items)
  | tuple {origin : Origin} {args : List TypeExpr} {items : List Json}
      (hOrigin : origin.concretize = .tuple) (hLength : args.length = items.length)
      (hItems : ∀ arg value, (arg, value) ∈ args.zip items → Admits classes arg value) :
      Admits classes (.generic origin args) (.array items)
  | classRef {ref : ClassRef} {value : Json} (h : classes ref value) :
      Admits classes (.classRef ref) value

/-- The values that a type admits as an arm of a union. -/
def AdmitsArm (classes : ClassRef → Json → Prop) (t : TypeExpr) (value : Json) : Prop :=
  Admits classes t value ∨ (value = .null ∧ .null ∈ leaves t)

section

variable {classes : ClassRef → Json → Prop}

theorem admits_named_iff {name : String} {target : TypeExpr} {value : Json} :
    Admits classes (.alias name target) value ↔ Admits classes target value := by
  constructor
  · intro h
    cases h with
    | named _ h => exact h
  · exact .named name

theorem admits_tagged_iff {inner : TypeExpr} {tags : List String} {value : Json} :
    Admits classes (.tagged inner tags) value ↔ Admits classes inner value := by
  constructor
  · intro h
    cases h with
    | tagged _ h => exact h
  · exact .tagged tags

theorem admits_literal_iff {values : List Constant} {value : Json} :
    Admits classes (.literal values) value ↔
      ∃ constant ∈ values, constant.accepts value = true := by
  constructor
  · intro h
    cases h with
    | literal hOption hAccepts => exact ⟨_, hOption, hAccepts⟩
  · rintro ⟨constant, hOption, hAccepts⟩
    exact .literal hOption hAccepts

/-- A union admits what one of its arms admits as an arm. -/
theorem admits_union_iff {arms : List TypeExpr} {value : Json} :
    Admits classes (.union arms) value ↔ ∃ arm ∈ arms, AdmitsArm classes arm value := by
  constructor
  · intro h
    cases h with
    | union hArm h => exact ⟨_, hArm, .inl h⟩
    | null hNull =>
        rw [leaves_union] at hNull
        obtain ⟨arm, hArm, hLeaf⟩ := List.mem_flatMap.mp hNull
        exact ⟨arm, hArm, .inr ⟨rfl, hLeaf⟩⟩
  · rintro ⟨arm, hArm, h | ⟨rfl, hLeaf⟩⟩
    · exact .union hArm h
    · refine .null ?_
      rw [leaves_union]
      exact List.mem_flatMap.mpr ⟨arm, hArm, hLeaf⟩

/-- A container admits arrays only: lists, tuples of one type repeated, and tuples with a type for
each place. -/
theorem admits_generic_iff {origin : Origin} {args : List TypeExpr} {value : Json} :
    Admits classes (.generic origin args) value ↔ ∃ items, value = .array items ∧
      ((origin.concretize = .list ∧ ∃ item, args = [item] ∧
          ∀ inner ∈ items, Admits classes item inner) ∨
        (origin.concretize = .tuple ∧ ∃ item, args = [item, .ellipsis] ∧
          ∀ inner ∈ items, Admits classes item inner) ∨
        (origin.concretize = .tuple ∧ List.Forall₂ (Admits classes) args items)) := by
  constructor
  · intro h
    cases h with
    | list hOrigin hItems => exact ⟨_, rfl, .inl ⟨hOrigin, _, rfl, hItems⟩⟩
    | repeated hOrigin hItems => exact ⟨_, rfl, .inr (.inl ⟨hOrigin, _, rfl, hItems⟩)⟩
    | tuple hOrigin hLength hItems =>
        exact ⟨_, rfl, .inr (.inr ⟨hOrigin, List.forall₂_iff_zip.mpr ⟨hLength, hItems _ _⟩⟩)⟩
  · rintro ⟨items, rfl, ⟨hOrigin, item, rfl, hItems⟩ | ⟨hOrigin, item, rfl, hItems⟩ |
      ⟨hOrigin, hItems⟩⟩
    · exact .list hOrigin hItems
    · exact .repeated hOrigin hItems
    · exact .tuple hOrigin hItems.length_eq fun _ _ hm => List.forall₂_zip hItems hm

/-- As an arm a type admits what it admits alone, unless it stands for the
absent value. -/
theorem admitsArm_iff_admits {t : TypeExpr} (h : .null ∉ leaves t) {value : Json} :
    AdmitsArm classes t value ↔ Admits classes t value :=
  or_iff_left fun hNull => h hNull.2

theorem admitsArm_union_iff {arms : List TypeExpr} {value : Json} :
    AdmitsArm classes (.union arms) value ↔ Admits classes (.union arms) value :=
  or_iff_left_of_imp fun hNull => hNull.1 ▸ .null hNull.2

/-- As an arm, a union admits what one of its own arms admits. -/
theorem admitsArm_iff_arms {t : TypeExpr} {value : Json} :
    AdmitsArm classes t value ↔ ∃ u ∈ arms t, AdmitsArm classes u value := by
  have hAlone : AdmitsArm classes t value ↔ ∃ u ∈ [t], AdmitsArm classes u value := by
    simp only [List.mem_singleton, exists_eq_left]
  cases t with
  | union arms => exact admitsArm_union_iff.trans admits_union_iff
  | _ => exact hAlone

/-- It is the same whether a single arm stands alone or in a union. -/
theorem admitsArm_ofArms_iff {types : List TypeExpr} {value : Json} :
    AdmitsArm classes (ofArms types) value ↔ ∃ t ∈ types, AdmitsArm classes t value := by
  rw [ofArms.eq_def]
  split
  · simp only [List.mem_singleton, exists_eq_left]
  · exact admitsArm_union_iff.trans admits_union_iff

/-! Equal types admit the same values -/

/-- Equal types have equal leaves. -/
theorem Equal.leaves {s t : TypeExpr} (h : Equal s t) :
    List.Forall₂ Equal (leaves s) (leaves t) := by
  have hAlone : List.Forall₂ Equal [s] [t] := .cons h .nil
  induction h with
  | named _ h ih => exact ih (.cons h .nil)
  | tagged _ h ih => exact ih (.cons h .nil)
  | union hLength h ih =>
      rw [leaves_union, leaves_union]
      refine List.rel_flatMap (R := fun s t => List.Forall₂ Equal (TypeExpr.leaves s)
        (TypeExpr.leaves t)) (List.forall₂_iff_zip.mpr ⟨hLength, fun hm => ?_⟩) fun _ _ h => h
      exact ih _ _ hm (.cons (h _ _ hm) .nil)
  | _ => exact hAlone

theorem Equal.eq_null {t : TypeExpr} (h : Equal .null t) : t = .null := by
  cases h
  rfl

theorem Equal.null_mem_leaves {s t : TypeExpr} (h : Equal s t) (hm : .null ∈ TypeExpr.leaves s) :
    .null ∈ TypeExpr.leaves t := by
  obtain ⟨leaf, hLeaf, hEqual⟩ := h.leaves.exists_right hm
  exact hEqual.eq_null ▸ hLeaf

/-- Equal types admit the same values, if classes that are equal do. Equality of classes looks at
their place alone. -/
theorem Equal.admits (hClasses : ∀ a b value, a.index = b.index → classes a value → classes b value)
    {s t : TypeExpr} (h : Equal s t) (value : Json) (hs : Admits classes s value) :
    Admits classes t value := by
  induction h generalizing value with
  | named name _ ih => exact .named name (ih value (admits_named_iff.mp hs))
  | tagged tags _ ih => exact .tagged tags (ih value (admits_tagged_iff.mp hs))
  | literal hValues =>
      cases hs with
      | literal hOption hAccepts =>
        obtain ⟨constant, hm, hEqual⟩ := hValues.exists_right hOption
        exact .literal hm (Constant.accepts_congr hEqual value hAccepts)
  | union hLength hArms ih =>
      have hPairs := List.forall₂_iff_zip.mpr
        ⟨hLength, fun hm => And.intro (hArms _ _ hm) (ih _ _ hm)⟩
      obtain ⟨arm, hArm, h⟩ := admits_union_iff.mp hs
      obtain ⟨other, hOther, hEqual, hAdmits⟩ := hPairs.exists_right hArm
      refine admits_union_iff.mpr ⟨other, hOther, h.imp (hAdmits value) fun hNull => ?_⟩
      exact ⟨hNull.1, hEqual.null_mem_leaves hNull.2⟩
  | @generic origin a b hLength hArgs ih =>
      have hPairs := List.forall₂_iff_zip.mpr
        ⟨hLength, fun hm => And.intro (hArgs _ _ hm) (ih _ _ hm)⟩
      obtain ⟨items, rfl, h⟩ := admits_generic_iff.mp hs
      refine admits_generic_iff.mpr ⟨items, rfl, ?_⟩
      rcases h with ⟨hOrigin, item, rfl, hItems⟩ | ⟨hOrigin, item, rfl, hItems⟩ | ⟨hOrigin, hItems⟩
      · cases hPairs with
        | cons hItem hRest =>
          cases hRest
          exact .inl ⟨hOrigin, _, rfl, fun inner hm => hItem.2 inner (hItems inner hm)⟩
      · cases hPairs with
        | cons hItem hRest =>
          cases hRest with
          | cons hMark hRest =>
            cases hRest
            cases hMark.1
            exact .inr (.inl ⟨hOrigin, _, rfl, fun inner hm => hItem.2 inner (hItems inner hm)⟩)
      · exact .inr (.inr ⟨hOrigin, hPairs.flip.chain hItems fun _ _ inner h hs => h.2 inner hs⟩)
  | classRef hIndex =>
      cases hs with
      | classRef h => exact .classRef (hClasses _ _ value hIndex h)
  | _ => exact hs

theorem Equal.admitsArm
    (hClasses : ∀ a b value, a.index = b.index → classes a value → classes b value)
    {s t : TypeExpr} (h : Equal s t) {value : Json} (hs : AdmitsArm classes s value) :
    AdmitsArm classes t value :=
  hs.imp (h.admits hClasses value) fun hNull => ⟨hNull.1, h.null_mem_leaves hNull.2⟩

/-! Merging -/

/-- Literals among the arms admit the constants of all of them. -/
theorem exists_admitsArm_iff (types : List TypeExpr) (value : Json) :
    (∃ t ∈ types, AdmitsArm classes t value) ↔
      (∃ t ∈ others types, AdmitsArm classes t value) ∨
        ∃ constant ∈ constants types, constant.accepts value = true := by
  induction types with
  | nil => simp [others, constants]
  | cons t types ih =>
      rw [List.exists_mem_cons_iff, ih]
      cases hLiteral : t.isLiteral with
      | false =>
          rw [constants_cons_of_not_literal _ hLiteral, others_cons_of_not_literal _ hLiteral,
            List.exists_mem_cons_iff, or_assoc]
      | true =>
          cases t with
          | literal values =>
              have hArm : AdmitsArm classes (.literal values) value ↔
                  ∃ constant ∈ values, constant.accepts value = true :=
                (admitsArm_iff_admits (by simp [leaves])).trans admits_literal_iff
              rw [hArm, constants, or_left_comm]
              simp only [List.mem_append, or_and_right, exists_or]
              rfl
          | _ => cases hLiteral

/-- Leaves that make the same union admit the same values as arms. -/
theorem exists_admitsArm_congr
    (hClasses : ∀ a b value, a.index = b.index → classes a value → classes b value)
    {a b : List TypeExpr} (h : Alike a b) (value : Json) :
    (∃ t ∈ a, AdmitsArm classes t value) ↔ ∃ t ∈ b, AdmitsArm classes t value := by
  have hOthers := List.exists_mem_eraseDups_iff (p := fun t => AdmitsArm classes t value)
    fun _ _ hEqual => (beq_iff_equal.mp hEqual).admitsArm hClasses
  have hConstants := List.exists_mem_eraseDups_iff (p := fun c => Constant.accepts c value = true)
    fun _ _ hEqual => Constant.accepts_congr hEqual value
  rw [exists_admitsArm_iff a, exists_admitsArm_iff b, ← hOthers (others a),
    ← hOthers (others b), ← hConstants (constants a), ← hConstants (constants b), h.others,
    h.constants]

theorem admitsArm_merge_iff
    (hClasses : ∀ a b value, a.index = b.index → classes a value → classes b value)
    (types : List TypeExpr) (value : Json) :
    AdmitsArm classes (merge types) value ↔ ∃ t ∈ types, AdmitsArm classes t value := by
  rw [merge_eq, admitsArm_ofArms_iff, exists_admitsArm_congr hClasses (alike_kept types)]

end

/-! What a normal type can be -/

/-- An arm of a normal type comes from a leaf, unless it is a literal. -/
theorem exists_leaf_of_mem_arms {concretize : Bool} {t u : TypeExpr} (h : u.isLiteral = false)
    (hm : u ∈ arms (t.normalize concretize)) :
    ∃ leaf ∈ leaves t, leaf.normalize concretize = u := by
  induction t using TypeExpr.induction with
  | named _ _ ih => exact ih hm
  | tagged _ _ ih => exact ih hm
  | union types ih =>
      rw [arms_normalize_union] at hm
      rcases of_mem_kept hm with ⟨hm, _⟩ | ⟨_, rfl⟩
      · obtain ⟨t, ht, hArm⟩ := List.mem_flatMap.mp hm
        obtain ⟨leaf, hLeaf, hNormal⟩ := ih t ht hArm
        rw [leaves_union]
        exact ⟨leaf, List.mem_flatMap.mpr ⟨t, ht, hLeaf⟩, hNormal⟩
      · cases h
  | _ => exact ⟨_, List.mem_cons_self, (List.mem_singleton.mp hm).symm⟩

/-- Normalization makes no absent value and no mark of repetition. -/
theorem mem_leaves_of_normalize {concretize : Bool} {t mark : TypeExpr}
    (hMark : mark = .null ∨ mark = .ellipsis) (h : t.normalize concretize = mark) :
    mark ∈ leaves t := by
  have hArm : mark ∈ arms (t.normalize concretize) := by
    rw [h]
    rcases hMark with rfl | rfl <;> exact List.mem_cons_self
  have hOther : mark.isLiteral = false := by rcases hMark with rfl | rfl <;> rfl
  obtain ⟨leaf, hLeaf, hNormal⟩ := exists_leaf_of_mem_arms hOther hArm
  have hShape := isLeaf_of_mem_leaves hLeaf
  rcases hMark with rfl | rfl <;> cases leaf <;>
    first | exact hLeaf | cases hNormal | cases hShape

theorem mem_constants_iff {types : List TypeExpr} {constant : Constant} :
    constant ∈ constants types ↔ ∃ values, .literal values ∈ types ∧ constant ∈ values := by
  induction types with
  | nil => simp [constants]
  | cons t types ih =>
      cases t with
      | literal values => simp [constants, ih, or_and_right, exists_or]
      | _ => simp [constants, ih]

/-- A union comes down to the absent value only if nothing but literals without
values stands beside it. -/
theorem leaves_of_normalize_union {concretize : Bool} {types : List TypeExpr}
    (h : normalize concretize (.union types) = .null) :
    ∀ leaf ∈ leaves (.union types), leaf = .null ∨ leaf = .literal [] := by
  intro leaf hLeaf
  rw [normalize_union_eq_merge, merge_eq, ofArms.eq_def] at h
  have hKept : kept ((leaves (.union types)).map (normalize concretize)) = [.null] := by
    split at h
    · next hSingle => rw [hSingle, h]
    · cases h
  have hOthers := others_kept ((leaves (.union types)).map (normalize concretize))
  have hConstants := constants_kept ((leaves (.union types)).map (normalize concretize))
  rw [hKept] at hOthers hConstants
  have hNormal := List.mem_map_of_mem (f := normalize concretize) hLeaf
  have hShape := isLeaf_of_mem_leaves hLeaf
  cases hLiteral : leaf.isLiteral with
  | false =>
      have hOther : leaf.normalize concretize ∈
          others ((leaves (.union types)).map (normalize concretize)) := by
        refine List.mem_filter.mpr ⟨hNormal, ?_⟩
        rw [isLiteral_normalize concretize hShape, hLiteral, Bool.not_false]
      obtain ⟨first, hFirst, hSame⟩ := List.exists_mem_eraseDups hOther
      rw [← hOthers] at hFirst
      cases List.mem_singleton.mp hFirst
      have hNull : leaf.normalize concretize = .null :=
        hSame.elim id fun hEqual => (beq_iff_equal.mp hEqual).symm.eq_null
      have hMem := mem_leaves_of_normalize (.inl rfl) hNull
      rw [leaves_of_isLeaf hShape] at hMem
      exact .inl (List.mem_singleton.mp hMem).symm
  | true =>
      cases leaf with
      | literal values =>
          cases values with
          | nil => exact .inr rfl
          | cons value values =>
              have hValue : value ∈
                  constants ((leaves (.union types)).map (normalize concretize)) := by
                refine mem_constants_iff.mpr ⟨_, hNormal, ?_⟩
                rw [List.eraseDups_cons]
                exact List.mem_cons_self
              obtain ⟨first, hFirst, _⟩ := List.exists_mem_eraseDups hValue
              rw [← hConstants] at hFirst
              cases hFirst
      | _ => cases hLiteral

/-! What normalization keeps -/

/-- Types in which the mark of repetition stands only in its place, and in which
every union meets a condition on its leaves. The condition is told whether the
union is an arm of another one. -/
inductive Regular (condition : Bool → List TypeExpr → Prop) : Bool → TypeExpr → Prop
  | any {inner : Bool} : Regular condition inner .any
  | null {inner : Bool} : Regular condition inner .null
  | int {inner : Bool} : Regular condition inner .int
  | float {inner : Bool} : Regular condition inner .float
  | str {inner : Bool} : Regular condition inner .str
  | bool {inner : Bool} : Regular condition inner .bool
  | named {inner : Bool} (name : String) {target : TypeExpr} (h : Regular condition inner target) :
      Regular condition inner (.alias name target)
  | tagged {inner : Bool} (tags : List String) {t : TypeExpr} (h : Regular condition inner t) :
      Regular condition inner (.tagged t tags)
  | literal {inner : Bool} (values : List Constant) : Regular condition inner (.literal values)
  | union {inner : Bool} {arms : List TypeExpr} (hLeaves : condition inner (leaves (.union arms)))
      (hArms : ∀ arm ∈ arms, Regular condition true arm) : Regular condition inner (.union arms)
  | generic {inner : Bool} (origin : Origin) {args : List TypeExpr}
      (hArgs : ∀ arg ∈ args, Regular condition false arg) :
      Regular condition inner (.generic origin args)
  | repeated {inner : Bool} {item : TypeExpr} (hItem : Regular condition false item) :
      Regular condition inner (.generic .tuple [item, .ellipsis])
  | classRef {inner : Bool} (ref : ClassRef) : Regular condition inner (.classRef ref)

/-- In a regular type no leaf is an ellipsis. -/
theorem Regular.ellipsis_not_mem_leaves {condition : Bool → List TypeExpr → Prop} {inner : Bool}
    {t : TypeExpr} (h : t.Regular condition inner) : .ellipsis ∉ leaves t := by
  induction h with
  | named _ _ ih => exact ih
  | tagged _ _ ih => exact ih
  | union _ _ ih =>
      rw [leaves_union, List.mem_flatMap]
      exact fun ⟨arm, hArm, hLeaf⟩ => ih arm hArm hLeaf
  | _ => simp [leaves]

/-- A union with the absent value among its leaves has another one that is not
a literal without values, unless the union is an arm of another. -/
def KeepsNull (inner : Bool) (leaves : List TypeExpr) : Prop :=
  inner = false → .null ∈ leaves → ∃ leaf ∈ leaves, leaf ≠ .null ∧ leaf ≠ .literal []

/-- A union that keeps more than the absent value does not collapse to it. -/
theorem KeepsNull.normalize_ne_null {types : List TypeExpr}
    (h : KeepsNull false (leaves (.union types))) (concretize : Bool) :
    normalize concretize (.union types) ≠ .null := by
  intro hNull
  obtain ⟨leaf, hLeaf, hOther, hFull⟩ := h rfl (mem_leaves_of_normalize (.inl rfl) hNull)
  exact (leaves_of_normalize_union hNull leaf hLeaf).elim hOther hFull

section

variable {classes : ClassRef → Json → Prop}

/-- A container admits the same values if its arguments do. None of them may turn into an ellipsis,
since that is read as a repetition. -/
theorem admits_generic_normalize {concretize : Bool} {args : List TypeExpr}
    (hArgs : ∀ arg ∈ args,
      (∀ value, Admits classes (arg.normalize concretize) value ↔ Admits classes arg value) ∧
        (arg.normalize concretize = .ellipsis → arg = .ellipsis)) (origin : Origin)
    (value : Json) :
    Admits classes ((generic origin args).normalize concretize) value ↔
      Admits classes (.generic origin args) value := by
  have hOrigin : (if concretize then origin.concretize else origin).concretize =
      origin.concretize := by
    split
    · exact origin.concretize_concretize
    · rfl
  have hEach {item : TypeExpr} (hm : item ∈ args) (items : List Json) :
      (∀ inner ∈ items, Admits classes (item.normalize concretize) inner) ↔
        ∀ inner ∈ items, Admits classes item inner :=
    forall₂_congr fun inner _ => (hArgs item hm).1 inner
  rw [normalize, normalizeAll_eq_map, admits_generic_iff, admits_generic_iff, hOrigin]
  refine exists_congr fun items => and_congr_right fun _ => or_congr (and_congr_right fun _ => ?_)
    (or_congr (and_congr_right fun _ => ?_) (and_congr_right fun _ => ?_))
  · constructor
    · rintro ⟨_, hMap, hItems⟩
      obtain ⟨item, rfl, rfl⟩ := List.map_eq_singleton_iff.mp hMap
      exact ⟨item, rfl, (hEach List.mem_cons_self items).mp hItems⟩
    · rintro ⟨item, rfl, hItems⟩
      exact ⟨_, rfl, (hEach List.mem_cons_self items).mpr hItems⟩
  · constructor
    · rintro ⟨_, hMap, hItems⟩
      obtain ⟨item, rest, rfl, rfl, hRest⟩ := List.map_eq_cons_iff.mp hMap
      obtain ⟨mark, rfl, hMark⟩ := List.map_eq_singleton_iff.mp hRest
      cases (hArgs mark (List.mem_cons_of_mem _ List.mem_cons_self)).2 hMark
      exact ⟨item, rfl, (hEach List.mem_cons_self items).mp hItems⟩
    · rintro ⟨item, rfl, hItems⟩
      exact ⟨_, rfl, (hEach List.mem_cons_self items).mpr hItems⟩
  · rw [List.forall₂_map_left_iff]
    constructor
    · intro hItems
      refine List.forall₂_iff_zip.mpr ⟨hItems.length_eq, fun hm => ?_⟩
      exact ((hArgs _ (List.of_mem_zip hm).1).1 _).mp (List.forall₂_zip hItems hm)
    · intro hItems
      refine List.forall₂_iff_zip.mpr ⟨hItems.length_eq, fun hm => ?_⟩
      exact ((hArgs _ (List.of_mem_zip hm).1).1 _).mpr (List.forall₂_zip hItems hm)

/-- The same for a union, in which null is admitted through the leaves. -/
theorem admitsArm_normalize_union {concretize : Bool}
    (hClasses : ∀ a b value, a.index = b.index → classes a value → classes b value)
    {types : List TypeExpr}
    (hArms : ∀ t ∈ types, ∀ value,
      AdmitsArm classes (t.normalize concretize) value ↔ AdmitsArm classes t value)
    (value : Json) :
    AdmitsArm classes (normalize concretize (.union types)) value ↔
      Admits classes (.union types) value := by
  rw [normalize_union, admitsArm_merge_iff hClasses, admits_union_iff]
  constructor
  · rintro ⟨u, hm, hAdmits⟩
    obtain ⟨t, ht, hArm⟩ := List.mem_flatMap.mp hm
    exact ⟨t, ht, (hArms t ht value).mp (admitsArm_iff_arms.mpr ⟨u, hArm, hAdmits⟩)⟩
  · rintro ⟨t, ht, hAdmits⟩
    obtain ⟨u, hArm, hAdmits⟩ := admitsArm_iff_arms.mp ((hArms t ht value).mpr hAdmits)
    exact ⟨u, List.mem_flatMap.mpr ⟨t, ht, hArm⟩, hAdmits⟩

/-- Only of the absent value itself it matters whether it stands in a union. -/
theorem admitsArm_normalize_iff {concretize : Bool} {t : TypeExpr}
    (h : t.normalize concretize ≠ .null) {value : Json} :
    AdmitsArm classes (t.normalize concretize) value ↔
      Admits classes (t.normalize concretize) value := by
  have hShape : ∀ u ∈ arms (t.normalize concretize), u.isLeaf = true :=
    fun _ => isLeaf_of_mem_arms_normalize
  generalize t.normalize concretize = normal at h hShape
  cases normal with
  | union types => exact admitsArm_union_iff
  | _ =>
      have hSelf := leaves_of_isLeaf (hShape _ List.mem_cons_self)
      exact admitsArm_iff_admits fun hNull => h (List.mem_singleton.mp (hSelf ▸ hNull)).symm

/-- As an arm every type keeps its values when it is normalized. Alone it keeps
them as well, because no union comes down to the absent value. -/
theorem admits_normalize
    (hClasses : ∀ a b value, a.index = b.index → classes a value → classes b value)
    {inner : Bool} {t : TypeExpr} (h : t.Regular KeepsNull inner) (concretize : Bool)
    (value : Json) :
    (AdmitsArm classes (t.normalize concretize) value ↔ AdmitsArm classes t value) ∧
      (inner = false →
        (Admits classes (t.normalize concretize) value ↔ Admits classes t value)) := by
  induction h generalizing value with
  | named name _ ih =>
      refine ⟨(ih value).1.trans (or_congr admits_named_iff.symm Iff.rfl), fun hInner => ?_⟩
      exact ((ih value).2 hInner).trans admits_named_iff.symm
  | tagged tags _ ih =>
      refine ⟨(ih value).1.trans (or_congr admits_tagged_iff.symm Iff.rfl), fun hInner => ?_⟩
      exact ((ih value).2 hInner).trans admits_tagged_iff.symm
  | literal values =>
      have hSame : Admits classes ((literal values).normalize concretize) value ↔
          Admits classes (.literal values) value := by
        rw [normalize, admits_literal_iff, admits_literal_iff]
        exact List.exists_mem_eraseDups_iff
          (fun _ _ hEqual => Constant.accepts_congr hEqual value) values
      exact ⟨or_congr hSame (by simp [normalize, leaves]), fun _ => hSame⟩
  | @union inner types hLeaves _ ih =>
      have hArm := admitsArm_normalize_union hClasses (fun t ht value => (ih t ht value).1) value
      refine ⟨hArm.trans admitsArm_union_iff.symm, fun hInner => ?_⟩
      subst hInner
      exact (admitsArm_normalize_iff (hLeaves.normalize_ne_null concretize)).symm.trans hArm
  | @generic inner origin args hArgs ih =>
      have hSame := admits_generic_normalize (fun arg hm =>
        ⟨fun value => (ih arg hm value).2 rfl, fun hMark => absurd
          (mem_leaves_of_normalize (.inr rfl) hMark) (hArgs arg hm).ellipsis_not_mem_leaves⟩)
        origin value
      exact ⟨or_congr hSame (by simp [normalize, leaves]), fun _ => hSame⟩
  | @repeated inner item hItem ih =>
      have hSame : Admits classes ((generic .tuple [item, .ellipsis]).normalize concretize) value ↔
          Admits classes (.generic .tuple [item, .ellipsis]) value := by
        refine admits_generic_normalize (fun arg hm => ?_) .tuple value
        rcases List.mem_pair.mp hm with rfl | rfl
        · exact ⟨fun value => (ih value).2 rfl, fun hMark => absurd
            (mem_leaves_of_normalize (.inr rfl) hMark) hItem.ellipsis_not_mem_leaves⟩
        · exact ⟨fun _ => Iff.rfl, fun _ => rfl⟩
      exact ⟨or_congr hSame (by simp [normalize, leaves]), fun _ => hSame⟩
  | _ => exact ⟨Iff.rfl, fun _ => Iff.rfl⟩

end

end TypeExpr

end ToolSchema
