import ToolSchema.Proofs.Number.Layout
import ToolSchema.Proofs.TypeExpr.Canonical
import ToolSchema.Proofs.TypeExpr.Matching
import ToolSchema.Proofs.TypeExpr.Meaning
import ToolSchema.Proofs.TypeExpr.RoundTrip
import ToolSchema.Proofs.TypeExpr.Tokens

/-! Canonical types whose text is read as the type. They are the legible ones, as
long as nothing in them is empty and the names of their classes are read as the
classes. -/
namespace ToolSchema

/-- Constants whose text is a constant of the notation and stands for them. A
backslash is written as it is but read as a mark, and what is not a finite number
has no notation. -/
def Constant.IsLegible : Constant → Prop
  | .float x => x.isFinite = true
  | .str text => '\\' ∉ text.toList
  | _ => True

namespace TypeExpr

open Text (trimStart)

/-! Constants -/

/-- A finite float is written with digits that read back as it. -/
theorem spells_text_float {x : Binary64} (h : x.isFinite = true) :
    Number.Spells (Constant.float x).text.toList x := by
  rw [Constant.text]
  split
  · next hIntegral => exact NumberLayout.spells_integralText hIntegral
  · next hFraction => exact NumberLayout.spells_render_plain h (Bool.eq_false_iff.mpr hFraction)

/-- The point or exponent in the text keeps a float from being read as an integer. -/
theorem readConstant_float {x : Binary64} (h : x.isFinite = true) {text rest : List Char}
    (hRest : Ends rest)
    (hText : trimStart text = trimStart ((Constant.float x).text.toList ++ rest)) :
    Reads (readConstant text) (.float x) rest := by
  obtain ⟨hInt, hFloat⟩ := (spells_text_float h).reads
  obtain ⟨first, more, hChars, hFirst, hMore⟩ := (spells_text_float h).exists_cons
  rw [hChars] at hText hInt hFloat
  have hStart : trimStart text = first :: (more ++ rest) := by
    rw [hText, List.cons_append, trimStart_cons]
    rcases hFirst with rfl | hDigit
    · decide
    · exact isBlank_of_isDigit hDigit
  have hFilter : (first :: more).filter (· != '_') = first :: more := by
    refine List.filter_eq_self.mpr fun c hm => bne_iff_ne.mpr ?_
    rintro rfl
    rcases List.mem_cons.mp hm with rfl | hm
    · exact absurd hFirst (by decide)
    · exact absurd (hMore _ hm) (by decide)
  have hValue : Grammar.NumberValue (first :: more) (.float x) :=
    .float (hFilter.symm ▸ hInt) (hFilter.symm ▸ hFloat)
  have hNumber : ∀ c ∈ more, isNumberChar c = true := by
    intro c hm
    rcases hMore c hm with hDigit | rfl
    · simp only [isNumberChar, hDigit, Bool.true_or]
    · decide
  have hStops : Stops isNumberChar rest := hRest.stops (by decide) (by decide)
  obtain ⟨hTake, hDrop⟩ := span_append hNumber hStops
  refine Grammar.readConstant_iff.mpr ⟨_, Grammar.skips_iff.mpr hStart,
    .number ⟨?_, first, rfl, hFirst.symm⟩⟩
  rcases hFirst with rfl | hDigit
  · exact .negative (Grammar.numberRun_iff.mpr ⟨hTake.symm, hDrop.symm⟩) hValue
  · have hFirstNumber : isNumberChar first = true := by
      simp only [isNumberChar, hDigit, Bool.true_or]
    refine .plain (Grammar.numberRun_iff.mpr ?_) hValue
    rw [List.takeWhile_cons_of_pos hFirstNumber, List.dropWhile_cons_of_pos hFirstNumber, hTake,
      hDrop]
    exact ⟨rfl, rfl⟩

/-- Each kind of legible constant is read back. For texts, that they have no backslash is needed. -/
theorem constantReadsBack_of_isLegible {value : Constant} (h : value.IsLegible) :
    ConstantReadsBack value := by
  intro text rest hRest hText
  cases value with
  | float x => exact readConstant_float h hRest hText
  | bool b => exact readConstant_bool b hRest hText
  | int n => exact readConstant_int n hRest hText
  | str value => exact readConstant_str h hText

/-! Types in which nothing is empty -/

/-- Every literal has a value and every union has an arm. -/
inductive Filled : TypeExpr → Prop
  | any : Filled .any
  | null : Filled .null
  | int : Filled .int
  | float : Filled .float
  | str : Filled .str
  | bool : Filled .bool
  | named (name : String) {target : TypeExpr} (h : Filled target) : Filled (.alias name target)
  | tagged (tags : List String) {inner : TypeExpr} (h : Filled inner) :
      Filled (.tagged inner tags)
  | literal {values : List Constant} (hValues : values ≠ []) : Filled (.literal values)
  | union {types : List TypeExpr} (hTypes : types ≠ []) (h : ∀ t ∈ types, Filled t) :
      Filled (.union types)
  | generic (origin : Origin) {args : List TypeExpr} (h : ∀ arg ∈ args, Filled arg) :
      Filled (.generic origin args)
  | ellipsis : Filled .ellipsis
  | classRef (ref : ClassRef) : Filled (.classRef ref)

theorem Filled.arms_ne_nil {t : TypeExpr} (h : t.Filled) : arms t ≠ [] := by
  cases h with
  | union hTypes _ => exact hTypes
  | _ => exact List.cons_ne_nil _ _

/-- The arms of a type in which nothing is empty are such types too. -/
theorem Filled.of_mem_arms {t u : TypeExpr} (h : t.Filled) (hm : u ∈ arms t) : u.Filled := by
  have hAlone (hm : u ∈ [t]) : u.Filled := List.mem_singleton.mp hm ▸ h
  cases h with
  | union _ hArms => exact hArms u hm
  | _ => exact hAlone hm

/-- Gathering literals and removing duplicates leaves something of every leaf. -/
theorem kept_ne_nil {leaves : List TypeExpr} {leaf : TypeExpr} (hm : leaf ∈ leaves)
    (h : leaf.Filled) : kept leaves ≠ [] := by
  intro hNothing
  have hOthers := others_kept leaves
  have hConstants := constants_kept leaves
  rw [hNothing] at hOthers hConstants
  cases hLiteral : leaf.isLiteral with
  | false =>
      have hOther : leaf ∈ others leaves := List.mem_filter.mpr ⟨hm, by rw [hLiteral]; rfl⟩
      exact List.eraseDups_ne_nil (List.ne_nil_of_mem hOther) hOthers.symm
  | true =>
      cases h with
      | literal hValues =>
          obtain ⟨value, more, rfl⟩ := List.exists_cons_of_ne_nil hValues
          have hValue : value ∈ constants leaves :=
            mem_constants_iff.mpr ⟨_, hm, List.mem_cons_self⟩
          exact List.eraseDups_ne_nil (List.ne_nil_of_mem hValue) hConstants.symm
      | _ => cases hLiteral

theorem filled_merge {leaves : List TypeExpr} (hLeaves : leaves ≠ [])
    (h : ∀ leaf ∈ leaves, leaf.Filled) : (merge leaves).Filled := by
  have hKept : ∀ t ∈ kept leaves, t.Filled := by
    intro t hm
    rcases of_mem_kept hm with ⟨ht, _⟩ | ⟨hValues, rfl⟩
    · exact h t ht
    · exact .literal hValues
  obtain ⟨leaf, hLeaf⟩ := List.exists_mem_of_ne_nil leaves hLeaves
  have hSome := kept_ne_nil hLeaf (h leaf hLeaf)
  rw [merge_eq, ofArms.eq_def]
  split
  · next t hSingle => exact hKept t (hSingle ▸ List.mem_cons_self)
  · exact .union hSome hKept

/-- Normalization empties nothing. -/
theorem Filled.normalize {t : TypeExpr} (h : t.Filled) (concretize : Bool) :
    (t.normalize concretize).Filled := by
  induction h with
  | named _ _ ih => exact ih
  | tagged _ _ ih => exact ih
  | literal hValues => exact .literal (List.eraseDups_ne_nil hValues)
  | @union types hTypes _ ih =>
      rw [normalize_union]
      refine filled_merge (fun hNothing => ?_) fun leaf hm => ?_
      · obtain ⟨t, ht⟩ := List.exists_mem_of_ne_nil types hTypes
        exact (ih t ht).arms_ne_nil (List.flatMap_eq_nil_iff.mp hNothing t ht)
      · obtain ⟨t, ht, hm⟩ := List.mem_flatMap.mp hm
        exact (ih t ht).of_mem_arms hm
  | generic origin _ ih =>
      rw [TypeExpr.normalize, normalizeAll_eq_map]
      exact .generic _ (List.forall_mem_map.mpr ih)
  | _ => constructor

/-! Legible types -/

/-- Types without names and tags in which every constant is legible and no
container is the abstract set, whose name is read as the concrete one. -/
inductive Legible : TypeExpr → Prop
  | any : Legible .any
  | null : Legible .null
  | int : Legible .int
  | float : Legible .float
  | str : Legible .str
  | bool : Legible .bool
  | literal {values : List Constant} (h : ∀ value ∈ values, value.IsLegible) :
      Legible (.literal values)
  | union {types : List TypeExpr} (h : ∀ t ∈ types, Legible t) : Legible (.union types)
  | generic {origin : Origin} {args : List TypeExpr} (hOrigin : origin ≠ .abstractSet)
      (h : ∀ arg ∈ args, Legible arg) : Legible (.generic origin args)
  | ellipsis : Legible .ellipsis
  | classRef (ref : ClassRef) : Legible (.classRef ref)

/-- The class is the same and found by its name. -/
def FoundByName (names : Names) (a b : ClassRef) : Prop :=
  a = b ∧ parse names a.name = .ok (.classRef a)

theorem matches_of_mem {r : ClassRef → ClassRef → Prop} {types : List TypeExpr}
    (hLength : types.length = types.length)
    (h : ∀ s t, (s, t) ∈ types.zip types → Matches r s t) : ∀ t ∈ types, Matches r t t :=
  List.forall₂_same.mp (List.forall₂_iff_zip.mpr ⟨hLength, h _ _⟩)

/-- A canonical type is read back as an arm unless it is a union, and on its own in
every case. -/
theorem Canonical.readsBack {names : Names} {concretize : Bool} {t : TypeExpr}
    (h : t.Canonical concretize) (hFilled : t.Filled) (hLegible : t.Legible)
    (hClasses : Matches (FoundByName names) t t) :
    ReadsBack names t ∧ ((∀ arms, t ≠ .union arms) → ArmReadsBack names t) := by
  have hAlone {t : TypeExpr} (h : ArmReadsBack names t) :
      ReadsBack names t ∧ ((∀ arms, t ≠ .union arms) → ArmReadsBack names t) :=
    ⟨h.readsBack, fun _ => h⟩
  induction h with
  | any => exact hAlone (armReadsBack_scalar (by decide) rfl)
  | null => exact hAlone (armReadsBack_scalar (by decide) rfl)
  | int => exact hAlone (armReadsBack_scalar (by decide) rfl)
  | float => exact hAlone (armReadsBack_scalar (by decide) rfl)
  | str => exact hAlone (armReadsBack_scalar (by decide) rfl)
  | bool => exact hAlone (armReadsBack_scalar (by decide) rfl)
  | literal _ =>
      cases hFilled with | literal hValues =>
      cases hLegible with | literal hConstants =>
      exact hAlone (armReadsBack_literal hValues fun value hm =>
        constantReadsBack_of_isLegible (hConstants value hm))
  | union hShape _ ih =>
      cases hFilled with | union hSome hFilled =>
      cases hLegible with | union hLegible =>
      cases hClasses with | union hLength hClasses =>
      have hSeveral := List.length_pos_iff.mpr hSome
      have hMore := hShape.several
      refine ⟨readsBack_union (by omega) fun arm hm => ?_, fun hOther => absurd rfl (hOther _)⟩
      exact (ih arm hm (hFilled arm hm) (hLegible arm hm)
        (matches_of_mem hLength hClasses arm hm)).2 (hShape.flat arm hm)
  | generic _ _ ih =>
      cases hFilled with | generic _ hFilled =>
      cases hLegible with | generic hOrigin hLegible =>
      cases hClasses with | generic _ hLength hClasses =>
      exact hAlone (armReadsBack_generic hOrigin fun arg hm =>
        (ih arg hm (hFilled arg hm) (hLegible arg hm) (matches_of_mem hLength hClasses arg hm)).1)
  | ellipsis => exact hAlone (armReadsBack_ellipsis names)
  | classRef ref =>
      cases hClasses with | classRef hFound =>
      exact hAlone (armReadsBack_of_parse rfl hFound.2)

/-- A normal form is read as itself if it is legible. -/
theorem parse_text_normalize {names : Names} {t : TypeExpr} (hFilled : t.Filled)
    (hClasses : Matches (FoundByName names) t t) {concretize : Bool}
    (hLegible : (t.normalize concretize).Legible) :
    parse names (t.normalize concretize).text = .ok (t.normalize concretize) := by
  have hFound : Matches (FoundByName names) (t.normalize concretize) (t.normalize concretize) := by
    refine hClasses.normalize (fun a b a' b' h h' => ?_) concretize
    rw [h.1, h'.1]
  obtain ⟨unread, hRead, hUnread⟩ := ((canonical_normalize concretize t).readsBack
    (hFilled.normalize concretize) hLegible hFound).1 [] .nothing
  rw [List.append_nil] at hRead
  exact parse_eq_ok_iff.mpr ⟨unread, hRead, hUnread⟩

end TypeExpr

end ToolSchema
