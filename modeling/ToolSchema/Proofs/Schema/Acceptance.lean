import ToolSchema.Proofs.Schema.Conformance
import ToolSchema.Proofs.Schema.Places

/-! The values that evaluation accepts, one fact for each kind of schema. The
names of fields may repeat here. -/
namespace ToolSchema.Schema

open Except (bind_eq_ok_iff pure_eq_ok_iff)

/-- Evaluation of the value succeeds. -/
def Accepts (schema : Schema) (value : Json) : Prop := ∃ result, eval schema value = .ok result

theorem not_accepts_undefined (type : TypeExpr) (value : Json) :
    ¬ Accepts (.undefined type) value := nofun

theorem not_accepts_mapping (origin : Origin) (key inner : Schema) (value : Json) :
    ¬ Accepts (.mapping origin key inner) value := nofun

theorem accepts_primitive_iff (kind : Scalar) (value : Json) :
    Accepts (.primitive kind) value ↔ Fits (.primitive kind) value := by
  rw [primitive_fits_iff]
  exact exists_congr fun result => evalScalar_eq_ok_iff kind [] value result

theorem accepts_literal_iff (options : List Constant) (value : Json) :
    Accepts (.literal options) value ↔
      ∃ constant ∈ options, constant.accepts value = true := by
  have hFits : Accepts (.literal options) value ↔ Fits (.literal options) value := by
    rw [literal_fits_iff]
    exact exists_congr fun result => evalLiteral_eq_ok_iff options [] value result
  rw [hFits]
  constructor
  · intro h
    cases h with
    | literal hOption hAccepts => exact ⟨_, hOption, hAccepts⟩
  · rintro ⟨constant, hOption, hAccepts⟩
    exact .literal hOption hAccepts

/-- Sequences accept arrays of any length, whatever they are built into. -/
theorem accepts_sequence_iff (origin : Origin) (item : Schema) (value : Json) :
    Accepts (.sequence origin item) value ↔
      ∃ items, value = .array items ∧ ∀ inner ∈ items, Accepts item inner := by
  cases value with
  | array items =>
      have hEach := evalEach_eq_ok_iff (evalAt_eq_ok_iff_eval item) [] 0 items
      simp only [Accepts, eval, evalAt, bind_eq_ok_iff, hEach, pure_eq_ok_iff, Json.array.injEq,
        exists_eq_left', ← List.exists_forall₂_iff]
      constructor
      · rintro ⟨_, results, hResults, _⟩
        exact ⟨results, hResults⟩
      · rintro ⟨results, hResults⟩
        exact ⟨_, results, hResults, rfl⟩
  | _ =>
      constructor
      · rintro ⟨_, hEval⟩
        cases hEval
      · rintro ⟨_, hItems, _⟩
        cases hItems

/-- Tuples accept arrays of their own length, item by item. -/
theorem accepts_tuple_iff (origin : Origin) (schemas : List Schema) (value : Json) :
    Accepts (.tuple origin schemas) value ↔
      ∃ items, value = .array items ∧ List.Forall₂ Accepts schemas items := by
  cases value with
  | array items =>
      have hItems := @evalItems_eq_ok_iff (fun schema value result => eval schema value = .ok result)
        schemas (fun schema _ => evalAt_eq_ok_iff_eval schema) [] 0 items
      have hPairs : List.Forall₂ Accepts schemas items ↔ schemas.length = items.length ∧
          ∀ pair ∈ schemas.zip items, ∃ result, eval pair.1 pair.2 = .ok result := by
        rw [List.forall₂_iff_zip]
        exact and_congr_right fun _ => ⟨fun h pair hm => h hm, fun h {_ _} hm => h _ hm⟩
      simp only [Json.array.injEq, exists_eq_left', hPairs, ← List.exists_forall₂_iff]
      simp only [Accepts, eval, evalAt]
      by_cases hLength : items.length = schemas.length
      · rw [if_pos hLength]
        simp only [bind_eq_ok_iff, hItems, pure_eq_ok_iff, hLength, true_and]
        constructor
        · rintro ⟨_, results, hResults, _⟩
          exact ⟨results, hResults⟩
        · rintro ⟨results, hResults⟩
          exact ⟨_, results, hResults, rfl⟩
      · rw [if_neg hLength]
        constructor
        · rintro ⟨_, hEval⟩
          cases hEval
        · rintro ⟨hSame, _⟩
          exact absurd hSame.symm hLength
  | _ =>
      constructor
      · rintro ⟨_, hEval⟩
        cases hEval
      · rintro ⟨_, hItems, _⟩
        cases hItems

/-- Where no constructor refuses its arguments, a union accepts what one of its
alternatives accepts. -/
theorem accepts_union_iff {options : List (Option Schema)}
    (hTotal : ∀ option, some option ∈ options → option.Everywhere ObjectSchema.Total)
    (value : Json) :
    Accepts (.union options) value ↔
      (value = .null ∧ none ∈ options) ∨
        ∃ schema, some schema ∈ options ∧ Accepts schema value := by
  by_cases hNull : value = .null ∧ none ∈ options
  · obtain ⟨rfl, hNone⟩ := hNull
    exact ⟨fun _ => .inl ⟨rfl, hNone⟩, fun _ => ⟨_, evalAt_union_null hNone []⟩⟩
  · simp only [Accepts, eval, evalAt_union_eq_ok_iff hNull, evalOptions_eq_accepted_iff]
    constructor
    · rintro ⟨result, before, schema, after, rfl, hSchema, _⟩
      exact .inr ⟨schema, by simp, result, hSchema⟩
    · rintro (h | ⟨schema, hOption, hAccepts⟩)
      · exact absurd h hNull
      · obtain ⟨before, first, after, rfl, ⟨result, hFirst⟩, hBefore⟩ :=
          @exists_first (fun option => ∃ result, evalAt option [] value = .ok result) _ _
            hOption hAccepts
        refine ⟨result, before, first, after, rfl, hFirst, fun earlier hm => ?_⟩
        cases hEarlier : evalAt earlier [] value with
        | ok other => exact absurd ⟨other, hEarlier⟩ (hBefore earlier hm)
        | error error =>
            exact ⟨error, rfl,
              evalAt_error_of_total (hTotal earlier (List.mem_append_left _ hm)) hEarlier⟩

end ToolSchema.Schema
