import ToolSchema.Proofs.Entries
import ToolSchema.Proofs.Except
import ToolSchema.Proofs.Pairs
import ToolSchema.Proofs.Schema.Structure

/-! What the single operations of evaluation do: when each of them succeeds,
with which result, and where its failures come from. -/
namespace ToolSchema

namespace Error

/-- A union goes on to its next alternative after such an error. -/
def IsMild (error : Error) : Prop :=
  (∃ rejection, error = .rejected rejection) ∨ ∃ obstacle, error = .unsupported obstacle

/-- A schema rejects the value itself, at the place where the value stands. -/
def IsRejectionAt (error : Error) (path : Path) : Prop :=
  ∃ mismatch, error = .rejected (.leaf path mismatch)

/-- A constructor refused its arguments. No union goes on after that. -/
def IsConstruction (error : Error) : Prop :=
  ∃ name refusal, error = .construction name refusal

/-- A schema that rejects the value itself lets a union go on. -/
theorem IsRejectionAt.mild {error : Error} {path : Path} (h : error.IsRejectionAt path) :
    error.IsMild := by
  obtain ⟨mismatch, rfl⟩ := h
  exact .inl ⟨_, rfl⟩

theorem IsMild.not_construction {error : Error} (h : error.IsMild) : ¬ error.IsConstruction := by
  rintro ⟨name, refusal, rfl⟩
  rcases h with ⟨_, he⟩ | ⟨_, he⟩ <;> cases he

end Error

namespace Schema

open Except (bind_eq_ok_iff bind_eq_error_iff pure_eq_ok_iff)

theorem reject_error {α : Type} {path : Path} {mismatch : Mismatch} {error : Error}
    (h : (reject path mismatch : Except Error α) = .error error) : error.IsRejectionAt path := by
  cases h
  exact ⟨mismatch, rfl⟩

/-- Scalars and literals look at the value alone, so they reject it where it stands. -/
theorem evalScalar_error {kind : Scalar} {path : Path} {value : Json} {error : Error}
    (h : evalScalar kind path value = .error error) : error.IsRejectionAt path := by
  unfold evalScalar at h
  split at h
  · cases h
  · cases h
  · split at h
    · cases h
    · exact reject_error h
  · split at h
    · cases h
    · exact reject_error h
  · exact reject_error h

theorem evalLiteral_error {options : List Constant} {path : Path} {value : Json} {error : Error}
    (h : evalLiteral options path value = .error error) : error.IsRejectionAt path := by
  rw [evalLiteral] at h
  split at h
  · cases h
  · exact reject_error h

/-- An evaluator that decides a relation at every place decides it for all
items of an array, whatever their positions. -/
theorem evalEach_eq_ok_iff {item : Evaluator} {accepts : Json → Value → Prop}
    (hItem : ∀ path value result, item path value = .ok result ↔ accepts value result)
    (path : Path) (index : Nat) (values : List Json) (results : List Value) :
    evalEach item path index values = .ok results ↔ List.Forall₂ accepts values results := by
  induction values generalizing index results with
  | nil => simp [evalEach, eq_comm]
  | cons value more ih =>
      simp only [evalEach, bind_eq_ok_iff, pure_eq_ok_iff, hItem, ih, List.forall₂_cons_left_iff]
      constructor
      · rintro ⟨first, hFirst, rest, hRest, rfl⟩
        exact ⟨first, rest, hFirst, hRest, rfl⟩
      · rintro ⟨first, rest, hFirst, hRest, rfl⟩
        exact ⟨first, hFirst, rest, hRest, rfl⟩

/-- An array fails where one of its items does, at the place of that item. -/
theorem evalEach_error {item : Evaluator} {path : Path} {index : Nat} {values : List Json}
    {error : Error} (h : evalEach item path index values = .error error) :
    ∃ position value, values[position]? = some value ∧
      item (path.child (.index (index + position))) value = .error error := by
  induction values generalizing index with
  | nil => cases h
  | cons value more ih =>
      rw [evalEach, bind_eq_error_iff] at h
      rcases h with hFirst | ⟨first, _, hRest⟩
      · exact ⟨0, value, rfl, hFirst⟩
      · rcases bind_eq_error_iff.mp hRest with hMore | ⟨_, _, hPure⟩
        · obtain ⟨position, value', hAt, hError⟩ := ih hMore
          rw [Nat.add_assoc, Nat.add_comm 1] at hError
          exact ⟨position + 1, value', hAt, hError⟩
        · cases hPure

/-- The items of a tuple are accepted one by one, each by its own schema. -/
theorem evalItems_eq_ok_iff {accepts : Schema → Json → Value → Prop} {schemas : List Schema}
    (hSchemas : ∀ schema ∈ schemas, ∀ path value result,
      evalAt schema path value = .ok result ↔ accepts schema value result)
    (path : Path) (index : Nat) (items : List Json) (results : List Value) :
    evalItems schemas path index items = .ok results ↔
      List.Forall₂ (fun pair result => accepts pair.1 pair.2 result) (schemas.zip items) results := by
  induction schemas generalizing index items results with
  | nil => simp [evalItems, eq_comm]
  | cons schema schemas ih =>
      rw [List.forall_mem_cons] at hSchemas
      cases items with
      | nil => simp [evalItems, eq_comm]
      | cons value more =>
          simp only [evalItems, bind_eq_ok_iff, pure_eq_ok_iff, hSchemas.1, ih hSchemas.2,
            List.zip_cons_cons, List.forall₂_cons_left_iff]
          constructor
          · rintro ⟨first, hFirst, rest, hRest, rfl⟩
            exact ⟨first, rest, hFirst, hRest, rfl⟩
          · rintro ⟨first, rest, hFirst, hRest, rfl⟩
            exact ⟨first, hFirst, rest, hRest, rfl⟩

/-- Items fail by the error of one of them, which stands at its own position. -/
theorem evalItems_error {schemas : List Schema} {path : Path} {index : Nat} {items : List Json}
    {error : Error} (h : evalItems schemas path index items = .error error) :
    ∃ position schema value, schemas[position]? = some schema ∧ items[position]? = some value ∧
      evalAt schema (path.child (.index (index + position))) value = .error error := by
  induction schemas generalizing index items with
  | nil => simp [evalItems] at h
  | cons schema schemas ih =>
      cases items with
      | nil => simp [evalItems] at h
      | cons value more =>
          rw [evalItems, bind_eq_error_iff] at h
          rcases h with hFirst | ⟨first, _, hRest⟩
          · exact ⟨0, schema, value, rfl, rfl, hFirst⟩
          · rcases bind_eq_error_iff.mp hRest with hMore | ⟨_, _, hPure⟩
            · obtain ⟨position, schema', value', hSchema, hValue, hError⟩ := ih hMore
              rw [Nat.add_assoc, Nat.add_comm 1] at hError
              exact ⟨position + 1, schema', value', hSchema, hValue, hError⟩
            · cases hPure

/-! Unions -/

/-- Adding a cause to what the later alternatives give does not make a result of a failure. -/
@[simp]
theorem map_rejectedBy_eq_accepted_iff {outcome : Except Error Trial} {rejection : Rejection}
    {result : Value} : outcome.map (Trial.rejectedBy rejection) = .ok (.accepted result) ↔
      outcome = .ok (.accepted result) := by
  rcases outcome with error | (value | _) <;> simp [Except.map, Trial.rejectedBy]

@[simp]
theorem map_afterUnsupported_eq_accepted_iff {outcome : Except Error Trial} {result : Value} :
    outcome.map Trial.afterUnsupported = .ok (.accepted result) ↔
      outcome = .ok (.accepted result) := by
  rcases outcome with error | (value | _) <;> simp [Except.map, Trial.afterUnsupported]

/-- An alternative accepts, or it fails mildly and those after it decide. -/
theorem evalOptions_cons_eq_accepted_iff (schema : Schema) (more : List (Option Schema))
    (path : Path) (value : Json) (result : Value) :
    evalOptions (some schema :: more) path value = .ok (.accepted result) ↔
      evalAt schema path value = .ok result ∨
        ∃ error, evalAt schema path value = .error error ∧ error.IsMild ∧
          evalOptions more path value = .ok (.accepted result) := by
  cases hFirst : evalAt schema path value with
  | ok found => simp [evalOptions, hFirst]
  | error error =>
      cases error with
      | rejected rejection => simp [evalOptions, hFirst, Error.IsMild]
      | unsupported obstacle => simp [evalOptions, hFirst, Error.IsMild]
      | _ => simp [evalOptions, hFirst, Error.IsMild]

/-- The first alternative that does not fail mildly is the one that counts,
and it counts only if it accepts. -/
theorem evalOptions_eq_accepted_iff (options : List (Option Schema)) (path : Path) (value : Json)
    (result : Value) :
    evalOptions options path value = .ok (.accepted result) ↔
      ∃ before schema after, options = before ++ some schema :: after ∧
        evalAt schema path value = .ok result ∧
        ∀ earlier, some earlier ∈ before →
          ∃ error, evalAt earlier path value = .error error ∧ error.IsMild := by
  induction options with
  | nil => simp [evalOptions]
  | cons option more ih =>
      cases option with
      | none =>
          rw [evalOptions, ih]
          constructor
          · intro h
            obtain ⟨before, schema, after, rfl, hSchema, hBefore⟩ := h
            exact ⟨none :: before, schema, after, rfl, hSchema, by simpa using hBefore⟩
          · intro h
            obtain ⟨before, schema, after, hOptions, hSchema, hBefore⟩ := h
            cases before with
            | nil => cases hOptions
            | cons first before =>
                cases hOptions
                exact ⟨before, schema, after, rfl, hSchema, fun earlier hm =>
                  hBefore earlier (List.mem_cons_of_mem _ hm)⟩
      | some first =>
          rw [evalOptions_cons_eq_accepted_iff, ih]
          constructor
          · intro h
            rcases h with hFirst | ⟨error, hFirst, hMild, before, schema, after, rfl, hSchema, hBefore⟩
            · exact ⟨[], first, more, rfl, hFirst, nofun⟩
            · refine ⟨some first :: before, schema, after, rfl, hSchema, fun earlier hm => ?_⟩
              rcases List.mem_cons.mp hm with he | hm
              · cases he
                exact ⟨error, hFirst, hMild⟩
              · exact hBefore earlier hm
          · intro h
            obtain ⟨before, schema, after, hOptions, hSchema, hBefore⟩ := h
            cases before with
            | nil =>
                cases hOptions
                exact .inl hSchema
            | cons _ before =>
                cases hOptions
                obtain ⟨error, hFirst, hMild⟩ := hBefore first List.mem_cons_self
                exact .inr ⟨error, hFirst, hMild, before, schema, after, rfl, hSchema,
                  fun earlier hm => hBefore earlier (List.mem_cons_of_mem _ hm)⟩

/-- An error that ends the trial comes from an alternative and is not mild. -/
theorem evalOptions_error {options : List (Option Schema)} {path : Path} {value : Json}
    {error : Error} (h : evalOptions options path value = .error error) :
    ∃ schema, some schema ∈ options ∧ evalAt schema path value = .error error ∧ ¬ error.IsMild := by
  induction options with
  | nil => cases h
  | cons option more ih =>
      have hMore : evalOptions more path value = .error error →
          ∃ schema, some schema ∈ option :: more ∧ evalAt schema path value = .error error ∧
            ¬ error.IsMild := fun h => by
        obtain ⟨schema, hm, hError⟩ := ih h
        exact ⟨schema, List.mem_cons_of_mem _ hm, hError⟩
      cases option with
      | none => exact hMore h
      | some first =>
          rw [evalOptions] at h
          split at h
          · cases h
          · exact hMore (Except.map_eq_error_iff.mp h)
          · exact hMore (Except.map_eq_error_iff.mp h)
          · next other hRejected hUnsupported hError =>
            cases h
            refine ⟨first, List.mem_cons_self, hError, ?_⟩
            rintro (⟨rejection, he⟩ | ⟨obstacle, he⟩)
            · exact hRejected _ he
            · exact hUnsupported _ he

/-- A union succeeds by an alternative that was accepted, and in no other way. -/
theorem concludeUnion_eq_ok_iff {union : String} {path : Path} {value : Json} {trial : Trial}
    {result : Value} :
    concludeUnion union path value trial = .ok result ↔ trial = .accepted result := by
  rcases trial with accepted | ⟨_ | _, _ | _⟩ <;> simp [concludeUnion]

/-- A union that gives up lets a union around it go on. -/
theorem concludeUnion_mild {union : String} {path : Path} {value : Json} {trial : Trial}
    {error : Error} (h : concludeUnion union path value trial = .error error) : error.IsMild := by
  rcases trial with accepted | ⟨_ | _, _ | _⟩ <;> cases h
  · exact .inl ⟨_, rfl⟩
  · exact .inr ⟨_, rfl⟩
  · exact .inl ⟨_, rfl⟩
  · exact .inl ⟨_, rfl⟩

theorem isOptional_iff (options : List (Option Schema)) :
    isOptional options = true ↔ none ∈ options := by
  simp [isOptional]

/-- Null is the absent value where the union has it. No alternative is tried. -/
theorem evalAt_union_null {options : List (Option Schema)} (h : none ∈ options) (path : Path) :
    evalAt (.union options) path .null = .ok .absent := by
  simp [evalAt, (isOptional_iff options).mpr h]

/-- Without an absent value to accept, the alternatives decide. -/
theorem evalAt_union_of_not_null {options : List (Option Schema)} {value : Json}
    (h : ¬ (value = .null ∧ none ∈ options)) (path : Path) :
    evalAt (.union options) path value =
      evalOptions options path value >>= concludeUnion (text (.union options)) path value := by
  rw [← isOptional_iff] at h
  rw [evalAt]
  exact fun hNull hOptional => h ⟨hNull, hOptional⟩

theorem evalAt_union_eq_ok_iff {options : List (Option Schema)} {value : Json}
    (h : ¬ (value = .null ∧ none ∈ options)) (path : Path) (result : Value) :
    evalAt (.union options) path value = .ok result ↔
      evalOptions options path value = .ok (.accepted result) := by
  simp only [evalAt_union_of_not_null h, bind_eq_ok_iff, concludeUnion_eq_ok_iff, exists_eq_right]

end Schema

end ToolSchema
