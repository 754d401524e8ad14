import ToolSchema.Proofs.Extraction.Extractor
import ToolSchema.Proofs.Schema.Acceptance
import ToolSchema.Proofs.TypeExpr.Meaning

/-! From types to schemas. A schema accepts the values that its type admits. -/
namespace ToolSchema.Extractor

open Except (bind_eq_ok_iff pure_eq_ok_iff)
open Schema (Accepts)

section

variable {classes : ClassSchemas}

/-- Conversion of several types succeeds if each of them is converted, and keeps their order. -/
theorem convertAll_eq_ok_iff {types : List TypeExpr} {schemas : List Schema} :
    convertAll classes types = .ok schemas ↔
      List.Forall₂ (fun type schema => convert classes type = .ok schema) types schemas := by
  induction types generalizing schemas with
  | nil => simp [convertAll, eq_comm]
  | cons type more ih =>
      simp only [convertAll, bind_eq_ok_iff, pure_eq_ok_iff, ih, List.forall₂_cons_left_iff]
      constructor
      · rintro ⟨first, hFirst, rest, hRest, rfl⟩
        exact ⟨first, rest, hFirst, hRest, rfl⟩
      · rintro ⟨first, rest, hFirst, hRest, rfl⟩
        exact ⟨first, hFirst, rest, hRest, rfl⟩

/-- The alternative that an arm of a union becomes. -/
inductive Alternative (classes : ClassSchemas) : TypeExpr → Option Schema → Prop
  | null : Alternative classes .null none
  | schema {arm : TypeExpr} {schema : Schema} (hNull : arm ≠ .null)
      (h : convert classes arm = .ok schema) : Alternative classes arm (some schema)

theorem convertArms_eq_ok_iff {arms : List TypeExpr} {options : List (Option Schema)} :
    convertArms classes arms = .ok options ↔ List.Forall₂ (Alternative classes) arms options := by
  induction arms generalizing options with
  | nil => simp [convertArms, eq_comm]
  | cons arm more ih =>
      by_cases hNull : arm = .null
      · subst hNull
        simp only [convertArms, bind_eq_ok_iff, pure_eq_ok_iff, ih, List.forall₂_cons_left_iff]
        constructor
        · rintro ⟨rest, hRest, rfl⟩
          exact ⟨none, rest, .null, hRest, rfl⟩
        · rintro ⟨option, rest, hArm, hRest, rfl⟩
          cases hArm with
          | null => exact ⟨rest, hRest, rfl⟩
          | schema hNull _ => exact absurd rfl hNull
      · rw [convertArms]
        · simp only [bind_eq_ok_iff, pure_eq_ok_iff, ih, List.forall₂_cons_left_iff]
          constructor
          · rintro ⟨first, hFirst, rest, hRest, rfl⟩
            exact ⟨some first, rest, .schema hNull hFirst, hRest, rfl⟩
          · rintro ⟨option, rest, hArm, hRest, rfl⟩
            cases hArm with
            | null => exact absurd rfl hNull
            | schema _ hFirst => exact ⟨_, hFirst, rest, hRest, rfl⟩
        · exact hNull

/-- The containers that have schemas. -/
theorem convert_generic_ok {origin : Origin} {args : List TypeExpr} {schema : Schema}
    (h : convert classes (.generic origin args) = .ok schema) :
    (origin = .list ∧ ∃ item inner, args = [item] ∧ convert classes item = .ok inner ∧
        schema = .sequence .list inner) ∨
      (origin = .tuple ∧ ∃ item inner, args = [item, .ellipsis] ∧
        convert classes item = .ok inner ∧ schema = .sequence .tuple inner) ∨
      (origin = .tuple ∧ (∀ item, args ≠ [item, .ellipsis]) ∧ ∃ inners,
        convertAll classes args = .ok inners ∧ schema = .tuple .tuple inners) ∨
      (origin = .dict ∧ ∃ key value keys values, args = [key, value] ∧
        convert classes key = .ok keys ∧ convert classes value = .ok values ∧
        schema = .mapping .dict keys values) := by
  cases origin with
  | list =>
      match args, h with
      | [], h => cases h
      | [item], h =>
          obtain ⟨inner, hItem, hPure⟩ := bind_eq_ok_iff.mp h
          cases hPure
          exact .inl ⟨rfl, item, inner, rfl, hItem, rfl⟩
      | _ :: _ :: _, h => cases h
  | tuple =>
      by_cases hRepeated : ∃ item, args = [item, .ellipsis]
      · obtain ⟨item, rfl⟩ := hRepeated
        obtain ⟨inner, hItem, hPure⟩ := bind_eq_ok_iff.mp h
        cases hPure
        exact .inr (.inl ⟨rfl, item, inner, rfl, hItem, rfl⟩)
      · have hOther : ∀ item, args ≠ [item, .ellipsis] := fun item he => hRepeated ⟨item, he⟩
        rw [convert] at h
        · obtain ⟨inners, hArgs, hPure⟩ := bind_eq_ok_iff.mp h
          cases hPure
          exact .inr (.inr (.inl ⟨rfl, hOther, inners, hArgs, rfl⟩))
        · exact hOther
  | dict =>
      match args, h with
      | [], h => cases h
      | [_], h => cases h
      | [key, value], h =>
          obtain ⟨keys, hKey, h⟩ := bind_eq_ok_iff.mp h
          obtain ⟨values, hValue, hPure⟩ := bind_eq_ok_iff.mp h
          cases hPure
          exact .inr (.inr (.inr ⟨rfl, key, value, keys, values, rfl, hKey, hValue, rfl⟩))
      | _ :: _ :: _ :: _, h => cases h
  | _ => cases h

/-- A class admits what its own schema accepts. -/
def ClassAdmits (classes : ClassSchemas) (ref : ClassRef) (value : Json) : Prop :=
  ∃ object, classes ref = .ok object ∧ Accepts (.object object) value

theorem fits_primitive_iff_admits {admitted : ClassRef → Json → Prop} {value : Json} :
    (Schema.Fits (.primitive .int) value ↔ TypeExpr.Admits admitted .int value) ∧
      (Schema.Fits (.primitive .float) value ↔ TypeExpr.Admits admitted .float value) ∧
      (Schema.Fits (.primitive .str) value ↔ TypeExpr.Admits admitted .str value) ∧
      (Schema.Fits (.primitive .bool) value ↔ TypeExpr.Admits admitted .bool value) := by
  refine ⟨⟨fun h => ?_, fun h => ?_⟩, ⟨fun h => ?_, fun h => ?_⟩, ⟨fun h => ?_, fun h => ?_⟩,
    ⟨fun h => ?_, fun h => ?_⟩⟩ <;> cases h <;> constructor

/-- Only a union can hide the absent value from conversion. -/
theorem admits_null_of_mem_leaves {admitted : ClassRef → Json → Prop} {type : TypeExpr}
    {schema : Schema} (h : convert classes type = .ok schema) (hNull : type ≠ .null)
    (hLeaf : .null ∈ type.leaves) : type.Admits admitted .null := by
  cases type using TypeExpr.induction with
  | null => exact absurd rfl hNull
  | named _ _ _ => cases h
  | tagged _ _ _ => cases h
  | union _ _ => exact .null hLeaf
  | _ => exact nomatch List.mem_singleton.mp hLeaf

/-- A union accepts what one of its arms admits. Null needs an arm of its own, which became the
absent value. -/
theorem accepts_union_iff_admits {arms : List TypeExpr} {options : List (Option Schema)}
    (hOptions : List.Forall₂ (Alternative classes) arms options)
    (hTotal : ∀ option, some option ∈ options → option.Everywhere ObjectSchema.Total)
    (hArms : ∀ arm ∈ arms, ∀ schema, convert classes arm = .ok schema →
      some schema ∈ options → ∀ value,
        Accepts schema value ↔ arm.Admits (ClassAdmits classes) value) (value : Json) :
    Accepts (.union options) value ↔
      TypeExpr.Admits (ClassAdmits classes) (.union arms) value := by
  rw [Schema.accepts_union_iff hTotal, TypeExpr.admits_union_iff]
  constructor
  · rintro (⟨rfl, hNone⟩ | ⟨schema, hOption, hAccepts⟩)
    · obtain ⟨arm, hArm, hAlternative⟩ := hOptions.exists_left hNone
      cases hAlternative
      exact ⟨.null, hArm, .inr ⟨rfl, List.mem_cons_self⟩⟩
    · obtain ⟨arm, hArm, hAlternative⟩ := hOptions.exists_left hOption
      cases hAlternative with
      | schema _ hConvert =>
        exact ⟨arm, hArm, .inl ((hArms arm hArm schema hConvert hOption value).mp hAccepts)⟩
  · rintro ⟨arm, hArm, hAdmits⟩
    obtain ⟨option, hOption, hAlternative⟩ := hOptions.exists_right hArm
    cases hAlternative with
    | null =>
        rcases hAdmits with hAdmits | ⟨rfl, _⟩
        · cases hAdmits
        · exact .inl ⟨rfl, hOption⟩
    | @schema _ schema hNull hConvert =>
        refine .inr ⟨schema, hOption, (hArms arm hArm schema hConvert hOption value).mpr ?_⟩
        rcases hAdmits with hAdmits | ⟨rfl, hLeaf⟩
        · exact hAdmits
        · exact admits_null_of_mem_leaves hConvert hNull hLeaf

/-- A container accepts arrays of what its arguments admit. -/
theorem accepts_generic_iff_admits {origin : Origin} {args : List TypeExpr} {schema : Schema}
    (h : convert classes (.generic origin args) = .ok schema)
    (hTotal : schema.Everywhere ObjectSchema.Total)
    (hArgs : ∀ arg ∈ args, ∀ schema, convert classes arg = .ok schema →
      schema.Everywhere ObjectSchema.Total → ∀ value,
        Accepts schema value ↔ arg.Admits (ClassAdmits classes) value) (value : Json) :
    Accepts schema value ↔ TypeExpr.Admits (ClassAdmits classes) (.generic origin args) value := by
  rw [TypeExpr.admits_generic_iff]
  rcases convert_generic_ok h with ⟨rfl, item, inner, rfl, hItem, rfl⟩ |
    ⟨rfl, item, inner, rfl, hItem, rfl⟩ | ⟨rfl, hOther, inners, hInners, rfl⟩ |
    ⟨rfl, _, _, _, _, rfl, _, _, rfl⟩
  · cases hTotal with
    | sequence hTotal =>
      have hIff := hArgs item List.mem_cons_self inner hItem hTotal
      simp [Schema.accepts_sequence_iff, hIff, Origin.concretize]
  · cases hTotal with
    | sequence hTotal =>
      have hIff := hArgs item List.mem_cons_self inner hItem hTotal
      have hPairs (items : List Json) :
          ¬ List.Forall₂ (TypeExpr.Admits (ClassAdmits classes)) [item, .ellipsis] items := by
        rintro (_ | ⟨_, _ | ⟨hMark, _⟩⟩)
        cases hMark
      simp [Schema.accepts_sequence_iff, hIff, Origin.concretize, hPairs]
  · cases hTotal with
    | tuple hTotal =>
      have hInners := convertAll_eq_ok_iff.mp hInners
      have hPairs : List.Forall₂ (fun arg inner => ∀ value,
          Accepts inner value ↔ arg.Admits (ClassAdmits classes) value) args inners := by
        refine List.forall₂_iff_zip.mpr ⟨hInners.length_eq, fun hm => ?_⟩
        obtain ⟨hArg, hInner⟩ := List.of_mem_zip hm
        exact hArgs _ hArg _ (List.forall₂_zip hInners hm) (hTotal _ hInner)
      have hIff (items : List Json) : List.Forall₂ Accepts inners items ↔
          List.Forall₂ (TypeExpr.Admits (ClassAdmits classes)) args items :=
        ⟨fun h => hPairs.chain h fun _ _ value hSame => (hSame value).mp,
          fun h => hPairs.flip.chain h fun _ _ value hSame => (hSame value).mpr⟩
      simp [Schema.accepts_tuple_iff, hIff, Origin.concretize, hOther]
  · simp [Schema.not_accepts_mapping, Origin.concretize]

/-- The schema of a type accepts what the type admits, if no constructor
refuses its arguments. -/
theorem accepts_iff_admits {type : TypeExpr} {schema : Schema}
    (h : convert classes type = .ok schema) (hTotal : schema.Everywhere ObjectSchema.Total)
    (value : Json) : Accepts schema value ↔ type.Admits (ClassAdmits classes) value := by
  induction type using TypeExpr.induction generalizing schema value with
  | any =>
      cases h
      exact ⟨fun h => absurd h (Schema.not_accepts_undefined _ _), nofun⟩
  | null =>
      cases h
      exact ⟨fun h => absurd h (Schema.not_accepts_undefined _ _), nofun⟩
  | int =>
      cases h
      exact (Schema.accepts_primitive_iff _ _).trans fits_primitive_iff_admits.1
  | float =>
      cases h
      exact (Schema.accepts_primitive_iff _ _).trans fits_primitive_iff_admits.2.1
  | str =>
      cases h
      exact (Schema.accepts_primitive_iff _ _).trans fits_primitive_iff_admits.2.2.1
  | bool =>
      cases h
      exact (Schema.accepts_primitive_iff _ _).trans fits_primitive_iff_admits.2.2.2
  | named _ _ _ => cases h
  | tagged _ _ _ => cases h
  | literal values =>
      cases h
      exact (Schema.accepts_literal_iff _ _).trans TypeExpr.admits_literal_iff.symm
  | union arms ih =>
      obtain ⟨options, hOptions, hPure⟩ := bind_eq_ok_iff.mp h
      cases hPure
      cases hTotal with
      | union hTotal =>
        refine accepts_union_iff_admits (convertArms_eq_ok_iff.mp hOptions) hTotal ?_ value
        exact fun arm hArm schema hConvert hOption => ih arm hArm hConvert (hTotal schema hOption)
  | generic origin args ih =>
      exact accepts_generic_iff_admits h hTotal
        (fun arg hm schema hConvert hTotal => ih arg hm hConvert hTotal) value
  | ellipsis => cases h
  | classRef ref =>
      obtain ⟨object, hObject, hPure⟩ := bind_eq_ok_iff.mp h
      cases hPure
      constructor
      · exact fun hAccepts => .classRef ⟨object, hObject, hAccepts⟩
      · intro hAdmits
        cases hAdmits with
        | classRef hAdmits =>
          obtain ⟨other, hOther, hAccepts⟩ := hAdmits
          cases hObject.symm.trans hOther
          exact hAccepts

end

/-- Only the position of a class counts. -/
theorem classSchema_congr {extractor : Extractor} {catalog : Catalog} {a b : ClassRef}
    (hIndex : a.index = b.index) {object : ObjectSchema Schema}
    (h : extractor.classSchema catalog a = .ok object) :
    extractor.classSchema catalog b = .ok object := by
  induction catalog with
  | nil => cases h
  | cons callable older ih =>
      rw [classSchema] at h ⊢
      rw [← hIndex]
      split at h
      · next hHere => rwa [if_pos hHere]
      · next hOlder => rw [if_neg hOlder, ih h]

/-- A class is known by its place in the catalog, not by its name. -/
theorem classAdmits_congr {extractor : Extractor} {catalog : Catalog} (a b : ClassRef)
    (value : Json) (hIndex : a.index = b.index)
    (h : ClassAdmits (extractor.classSchema catalog) a value) :
    ClassAdmits (extractor.classSchema catalog) b value := by
  obtain ⟨object, hObject, hAccepts⟩ := h
  exact ⟨object, classSchema_congr hIndex hObject, hAccepts⟩

/-- The schema that is extracted for a type accepts what the type admits as it
is written, although extraction normalizes it first. -/
theorem extractType_accepts_iff_admits {extractor : Extractor} {catalog : Catalog}
    {type : TypeExpr} {schema : Schema} (hRegular : type.Regular TypeExpr.KeepsNull false)
    (hSchema : extractor.extractType catalog type = .ok schema)
    (hTotal : schema.Everywhere ObjectSchema.Total) (value : Json) :
    (∃ result, schema.eval value = .ok result) ↔
      type.Admits (ClassAdmits (extractor.classSchema catalog)) value :=
  (accepts_iff_admits hSchema hTotal value).trans
    ((TypeExpr.admits_normalize classAdmits_congr hRegular true value).2 rfl)

/-- Names and metadata are seen through: a sequence of numbers, of which one is absent. -/
theorem sequence_of_ages_admits :
    TypeExpr.Admits (ClassAdmits (Extractor.classSchema [] []))
      (.generic .sequence [.union [.alias "Age" .int, .tagged .null ["unknown"]]])
      (.array [.int 3, .null]) := by
  refine (@extractType_accepts_iff_admits [] [] _
    (.sequence .list (.union [some (.primitive .int), none])) ?_ rfl ?_ _).mp ⟨_, rfl⟩
  · refine .generic _ fun arg hArg => ?_
    cases List.mem_singleton.mp hArg
    refine .union (fun _ _ => ⟨.int, List.mem_cons_self, nofun, nofun⟩) fun arm hArm => ?_
    rcases List.mem_pair.mp hArm with rfl | rfl
    · exact .named _ .int
    · exact .tagged _ .null
  · refine .sequence (.union fun option hOption => ?_)
    rcases List.mem_pair.mp hOption with he | he
    · cases he
      exact .primitive .int
    · cases he

/-- A literal without values is dropped, and what it leaves alone in a union is
no union any more. So it is not enough that some leaf is another one than the
absent value. -/
theorem empty_literal_hides_null :
    ¬ ∀ (extractor : Extractor) (catalog : Catalog) (type : TypeExpr) (schema : Schema),
      type.Regular (fun _ leaves => ∃ leaf ∈ leaves, leaf ≠ .null) false →
      extractor.extractType catalog type = .ok schema → schema.Everywhere ObjectSchema.Total →
      ∀ value, (∃ result, schema.eval value = .ok result) ↔
        type.Admits (ClassAdmits (extractor.classSchema catalog)) value := by
  intro h
  have hRegular : TypeExpr.Regular (fun _ leaves => ∃ leaf ∈ leaves, leaf ≠ .null) false
      (.union [.literal [], .null]) := by
    refine .union ⟨.literal [], List.mem_cons_self, nofun⟩ fun arm hArm => ?_
    rcases List.mem_pair.mp hArm with rfl | rfl
    · exact .literal []
    · exact .null
  have hNull := h [] [] _ (.undefined .null) hRegular rfl (.undefined .null) .null
  obtain ⟨result, hResult⟩ := hNull.mpr (.null (List.mem_cons_of_mem _ List.mem_cons_self))
  cases hResult

end ToolSchema.Extractor
