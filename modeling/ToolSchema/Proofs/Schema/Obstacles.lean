import ToolSchema.Proofs.Schema.Validity

/-! Evaluation that never comes to a schema that cannot be used. A union gives up for
this reason only if all of its alternatives do, and a schema with a document has no
other place for it. -/
namespace ToolSchema.Schema

open Except (bind_eq_ok_iff bind_eq_error_iff)

/-- The computation does not fail because a schema cannot be used. -/
def Unobstructed {α : Type} (x : Except Error α) : Prop :=
  ∀ obstacle, x ≠ .error (.unsupported obstacle)

/-- The schema can be evaluated on every value, at every place. -/
def Usable (schema : Schema) : Prop := ∀ path value, Unobstructed (evalAt schema path value)

section

variable {α β : Type}

theorem unobstructed_ok (a : α) : Unobstructed (.ok a : Except Error α) := nofun

theorem unobstructed_reject (path : Path) (mismatch : Mismatch) :
    Unobstructed (reject path mismatch : Except Error α) := nofun

theorem unobstructed_construction (name : String) (refusal : Refusal) :
    Unobstructed (.error (.construction name refusal) : Except Error α) := nofun

/-- The steps of a computation may be looked at one by one. -/
theorem Unobstructed.bind {x : Except Error α} {f : α → Except Error β} (h : Unobstructed x)
    (hNext : ∀ a, Unobstructed (f a)) : Unobstructed (x >>= f) := by
  intro obstacle hError
  rcases bind_eq_error_iff.mp hError with hFirst | ⟨a, _, hRest⟩
  · exact h obstacle hFirst
  · exact hNext a obstacle hRest

end

/-! The single operations -/

theorem usable_primitive (kind : Scalar) : Usable (.primitive kind) := by
  intro path value
  rw [evalAt, evalScalar.eq_def]
  split
  · exact unobstructed_ok _
  · exact unobstructed_ok _
  · split
    · exact unobstructed_ok _
    · exact unobstructed_reject _ _
  · split
    · exact unobstructed_ok _
    · exact unobstructed_reject _ _
  · exact unobstructed_reject _ _

/-- Literals of any constants can be compared with a value, also those that no document can show. -/
theorem usable_literal (options : List Constant) : Usable (.literal options) := by
  intro path value
  rw [evalAt, evalLiteral]
  split
  · exact unobstructed_ok _
  · exact unobstructed_reject _ _

/-- Items meet an obstacle only in the schema that they share. -/
theorem unobstructed_evalEach {item : Evaluator}
    (hItem : ∀ path value, Unobstructed (item path value)) (path : Path) (index : Nat)
    (values : List Json) : Unobstructed (evalEach item path index values) := by
  induction values generalizing index with
  | nil => exact unobstructed_ok _
  | cons value more ih =>
      refine (hItem _ value).bind fun first => ?_
      exact (ih (index + 1)).bind fun rest => unobstructed_ok _

theorem usable_sequence {origin : Origin} {item : Schema} (hItem : Usable item) :
    Usable (.sequence origin item) := by
  intro path value
  cases value with
  | array items =>
      rw [evalAt]
      exact (unobstructed_evalEach hItem path 0 items).bind fun values => unobstructed_ok _
  | _ => exact unobstructed_reject _ _

/-! Unions -/

/-- A trial without a rejection found no alternative that could be used. -/
theorem obstacle_of_evalOptions {options : List (Option Schema)} {path : Path} {value : Json}
    {unsupported : Bool} (h : evalOptions options path value = .ok (.failed [] unsupported))
    {schema : Schema} (hOption : some schema ∈ options) :
    ∃ obstacle, evalAt schema path value = .error (.unsupported obstacle) := by
  induction options generalizing unsupported with
  | nil => cases hOption
  | cons option more ih =>
      cases option with
      | none =>
          rcases List.mem_cons.mp hOption with he | hMore
          · cases he
          · exact ih h hMore
      | some first =>
          rw [evalOptions] at h
          split at h
          · cases h
          · -- The rejection of the first alternative stays in front of the others.
            generalize evalOptions more path value = trial at h
            rcases trial with error | accepted | causes <;> cases h
          · next obstacle hFirst =>
            generalize hMore : evalOptions more path value = trial at h
            rcases trial with error | accepted | ⟨causes, others⟩ <;> cases h
            rcases List.mem_cons.mp hOption with he | hm
            · cases he
              exact ⟨obstacle, hFirst⟩
            · exact ih hMore hm
          · cases h

/-- One alternative that can be used is enough: it either accepts the value or adds a cause, and
then the union rejects the value itself. -/
theorem usable_union {options : List (Option Schema)} {schema : Schema}
    (hOption : some schema ∈ options) (h : Usable schema) : Usable (.union options) := by
  intro path value obstacle hError
  by_cases hNull : value = .null ∧ none ∈ options
  · obtain ⟨rfl, hNone⟩ := hNull
    rw [evalAt_union_null hNone] at hError
    cases hError
  · rw [evalAt_union_of_not_null hNull] at hError
    rcases bind_eq_error_iff.mp hError with hOptions | ⟨trial, hTrial, hConclude⟩
    · obtain ⟨_, _, _, hMild⟩ := evalOptions_error hOptions
      exact hMild (.inr ⟨obstacle, rfl⟩)
    · rcases trial with accepted | ⟨_ | _, _ | _⟩ <;> cases hConclude
      obtain ⟨other, hOther⟩ := obstacle_of_evalOptions hTrial hOption
      exact h path value other hOther

/-! Objects -/

/-- Members without a field are rejected, and all others are evaluated by schemas that can be
used. -/
theorem unobstructed_evalMembers {fields : List (Field Evaluator)}
    (hFields : ∀ field ∈ fields, ∀ path value, Unobstructed (field.schema path value))
    (path : Path) (supplied : Entries Value) (members : List (String × Json)) :
    Unobstructed (evalMembers fields path supplied members) := by
  induction members generalizing supplied with
  | nil => exact unobstructed_ok _
  | cons member more ih =>
      rw [evalMembers]
      split
      · exact unobstructed_reject _ _
      · next field hField =>
        exact (hFields field (List.mem_of_find?_eq_some hField) _ _).bind fun value => ih _

theorem unobstructed_arrange {α : Type} (positionalOnly : List String) (path : Path)
    (supplied : Entries Value) (gap : Option String) (fields : List (Field α)) :
    Unobstructed (arrange positionalOnly path supplied gap fields) := by
  induction fields generalizing supplied gap with
  | nil => exact unobstructed_ok _
  | cons field more ih =>
      rw [arrange]
      split
      · exact ih _ _
      · split
        · split
          · exact unobstructed_reject _ _
          · exact (ih _ _).bind fun args => unobstructed_ok _
        · exact (ih _ _).bind fun args => unobstructed_ok _

/-- What follows the members is about their names and the constructor. -/
theorem unobstructed_finish (object : ObjectSchema Evaluator) (path : Path)
    (supplied : Entries Value) : Unobstructed (finish object path supplied) := by
  rw [finish]
  split
  · refine (unobstructed_arrange _ path supplied none object.fields).bind fun args => ?_
    cases object.construct args with
    | ok result => exact unobstructed_ok _
    | error refusal => exact unobstructed_construction _ refusal
  · exact unobstructed_reject _ _

/-- An object can be used if all its fields can. -/
theorem usable_object {object : ObjectSchema Schema}
    (hFields : ∀ field ∈ object.fields, Usable field.schema) : Usable (.object object) := by
  intro path value
  rw [evalAt_object]
  cases value with
  | object members =>
      rw [evalObject_members]
      refine (unobstructed_evalMembers (fun field hm => ?_) path [] members).bind
        (unobstructed_finish _ path)
      obtain ⟨inner, hInner, rfl⟩ := List.mem_map.mp hm
      exact hFields inner hInner
  | _ => exact unobstructed_reject _ _

/-! Schemas with a document -/

/-- A union that is described by its scalars has one. It is the alternative that can be used. -/
theorem exists_primitive_of_describeScalars {options : List (Option Schema)}
    {hint : Option String} {document : Document}
    (h : describeScalars (scalarKinds options) hint = .ok document) :
    ∃ kind, some (.primitive kind) ∈ options := by
  cases hKinds : scalarKinds options with
  | nil =>
      rw [hKinds] at h
      cases h
  | cons kind more =>
      exact ⟨kind, (mem_scalarKinds options kind).mp (hKinds ▸ List.mem_cons_self)⟩

/-- A schema that can be described can be used on every value. -/
theorem usable_of_describe {schema : Schema} {hint : Option String} {document : Document}
    (h : describe schema hint = .ok document) : Usable schema := by
  induction schema using Schema.induction generalizing hint document with
  | undefined type => cases h
  | primitive kind => exact usable_primitive kind
  | sequence origin item ih =>
      obtain ⟨items, hItems, _⟩ := bind_eq_ok_iff.mp h
      exact usable_sequence (ih hItems)
  | tuple _ _ _ => cases h
  | mapping _ _ _ _ _ => cases h
  | union options ih =>
      rcases describe_union h with ⟨schema, hOnly, hSchema⟩ | ⟨_, hScalars⟩
      · have hOption := (hOnly schema).mpr rfl
        exact usable_union hOption (ih schema hOption hSchema)
      · obtain ⟨kind, hOption⟩ := exists_primitive_of_describeScalars hScalars
        exact usable_union hOption (usable_primitive kind)
  | literal options => exact usable_literal options
  | object object ih =>
      rw [describe] at h
      obtain ⟨properties, hProperties, _⟩ := bind_eq_ok_iff.mp h
      refine usable_object fun field hm => ?_
      obtain ⟨property, _, _, hField⟩ := (describeFields_ok hProperties).exists_right hm
      exact ih field hm hField

end ToolSchema.Schema
