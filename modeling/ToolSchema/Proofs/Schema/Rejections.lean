import ToolSchema.Proofs.Schema.Places

/-! Where rejections point. Every rejection in the tree of an evaluation is the answer of one
schema inside the evaluated one, given for the part of the value that the place names. -/
namespace ToolSchema

/-- Steps that lead from a value to one of its parts. -/
inductive Json.Leads : Json → Path → Json → Prop
  | here (value : Json) : Leads value [] value
  | member {members : List (String × Json)} {key : String} {item part : Json} {steps : Path}
      (hMember : (key, item) ∈ members) (h : Leads item steps part) :
      Leads (.object members) (.field key :: steps) part
  | item {items : List Json} {position : Nat} {item part : Json} {steps : Path}
      (hItem : items[position]? = some item) (h : Leads item steps part) :
      Leads (.array items) (.index position :: steps) part

/-- The report names a part of the value that stands at `base`, and so do all causes below it.
Steps to the part go on from those above, which belong to the report that it is a cause of. -/
inductive Report.PointsInto (base : String) (value : Json) : Path → Report → Prop
  | mk {above steps : Path} {part : Json} {message : String} {causes : List Report}
      (hAbove : above <+: steps) (hPart : value.Leads steps part)
      (hCauses : ∀ cause ∈ causes, PointsInto base value steps cause) :
      PointsInto base value above (.mk (base ++ String.join (steps.map Step.text)) message causes)

namespace Rejection

def path : Rejection → Path
  | .mk path _ _ => path

def causes : Rejection → List Rejection
  | .mk _ _ causes => causes

theorem reports_eq_map (causes : List Rejection) : reports causes = causes.map report := by
  induction causes with
  | nil => rfl
  | cons cause more ih => exact congrArg _ ih

end Rejection

namespace Schema

open Except (bind_eq_error_iff)

/-- Evaluation of a value against a schema goes on, by these steps, to a part of the value and to a
schema for it. The alternatives of a union are tried on the value itself. -/
inductive Reaches : Schema → Json → Path → Schema → Json → Prop
  | here (schema : Schema) (value : Json) : Reaches schema value [] schema value
  | sequence {origin : Origin} {item inner : Schema} {items : List Json} {position : Nat}
      {value part : Json} {steps : Path} (hItem : items[position]? = some value)
      (h : Reaches item value steps inner part) :
      Reaches (.sequence origin item) (.array items) (.index position :: steps) inner part
  | tuple {origin : Origin} {schemas : List Schema} {schema inner : Schema} {items : List Json}
      {position : Nat} {value part : Json} {steps : Path}
      (hSchema : schemas[position]? = some schema) (hItem : items[position]? = some value)
      (h : Reaches schema value steps inner part) :
      Reaches (.tuple origin schemas) (.array items) (.index position :: steps) inner part
  | union {options : List (Option Schema)} {option inner : Schema} {value part : Json}
      {steps : Path} (hOption : some option ∈ options) (h : Reaches option value steps inner part) :
      Reaches (.union options) value steps inner part
  | object {object : ObjectSchema Schema} {field : Field Schema} {inner : Schema}
      {members : List (String × Json)} {key : String} {value part : Json} {steps : Path}
      (hMember : (key, value) ∈ members) (hField : findField? object.fields key = some field)
      (h : Reaches field.schema value steps inner part) :
      Reaches (.object object) (.object members) (.field key :: steps) inner part

/-- The steps of evaluation are steps into the value. -/
theorem Reaches.leads {schema inner : Schema} {value part : Json} {steps : Path}
    (h : schema.Reaches value steps inner part) : value.Leads steps part := by
  induction h with
  | here schema value => exact .here value
  | sequence hItem _ ih => exact .item hItem ih
  | tuple _ hItem _ ih => exact .item hItem ih
  | union _ _ ih => exact ih
  | object hMember _ _ ih => exact .member hMember ih

/-- Why a schema rejects a value by itself, if it does. -/
def rejection? (schema : Schema) (path : Path) (value : Json) : Option Rejection :=
  match evalAt schema path value with
  | .error (.rejected rejection) => some rejection
  | _ => none

/-- The rejection of a schema is the error of its evaluation. -/
theorem rejection?_eq_some_iff {schema : Schema} {path : Path} {value : Json}
    {rejection : Rejection} : schema.rejection? path value = some rejection ↔
      evalAt schema path value = .error (.rejected rejection) := by
  unfold rejection?
  split <;> simp_all

/-- What a schema gives as the causes when it rejects a value. A union gives the rejections by its
alternatives, in their order and one for each alternative that rejects the value. -/
def causesAt (schema : Schema) (path : Path) (value : Json) : List Rejection :=
  match schema with
  | .union options => options.filterMap fun option => option.bind (·.rejection? path value)
  | _ => []

/-- The schema rejects the value, and it does so itself: at the place where the value stands, and
with its own causes. -/
structure Rejects (schema : Schema) (path : Path) (value : Json) (rejection : Rejection) :
    Prop where
  eval : evalAt schema path value = .error (.rejected rejection)
  path_eq : rejection.path = path
  causes_eq : rejection.causes = schema.causesAt path value

/-- The rejection is the one by a schema that evaluation reaches, for the part of the value that it
reaches with it, and so are all causes below it. -/
inductive Traced (schema : Schema) (path : Path) (value : Json) : Path → Rejection → Prop
  | mk {above steps : Path} {inner : Schema} {part : Json} {rejection : Rejection}
      (hAbove : above <+: steps) (hReaches : schema.Reaches value steps inner part)
      (hRejects : inner.Rejects (path ++ steps) part rejection)
      (hCauses : ∀ cause ∈ rejection.causes, Traced schema path value steps cause) :
      Traced schema path value above rejection

section

variable {schema outer : Schema} {path place above front : Path} {value part : Json}
  {rejection : Rejection}

/-- A rejection by the schema itself is traced as soon as its causes are. -/
theorem Traced.own (h : schema.Rejects path value rejection)
    (hCauses : ∀ cause ∈ rejection.causes, Traced schema path value [] cause) :
    Traced schema path value [] rejection := by
  refine .mk List.nil_prefix (.here schema value) ?_ hCauses
  rwa [List.append_nil]

/-- A schema that tries no alternatives rejects without causes. -/
theorem traced_of_isRejectionAt (hNone : schema.causesAt path value = [])
    (hEval : evalAt schema path value = .error (.rejected rejection))
    (h : (Error.rejected rejection).IsRejectionAt path) :
    Traced schema path value [] rejection := by
  obtain ⟨mismatch, he⟩ := h
  cases he
  exact .own ⟨hEval, rfl, hNone.symm⟩ nofun

/-- What is traced in a part is traced in the whole, with the steps to the part in front. -/
theorem Traced.lift (hPlace : place = path ++ front)
    (hFront : ∀ steps inner found, schema.Reaches part steps inner found →
      outer.Reaches value (front ++ steps) inner found)
    (h : Traced schema place part above rejection) :
    Traced outer path value (front ++ above) rejection := by
  subst hPlace
  induction h with
  | @mk above steps inner found rejection hAbove hReaches hRejects _ ih =>
      apply Traced.mk ((List.prefix_append_right_inj front).mpr hAbove) (hFront _ _ _ hReaches)
      · rwa [← List.append_assoc]
      · exact ih

/-- What is traced below a place is traced below every place above it. -/
theorem Traced.of_prefix {higher : Path} (hHigher : higher <+: above)
    (h : Traced schema path value above rejection) : Traced schema path value higher rejection := by
  cases h with
  | mk hAbove hReaches hRejects hCauses =>
      exact .mk (hHigher.trans hAbove) hReaches hRejects hCauses

/-- A rejection one step inside the value. -/
theorem Traced.of_child {step : Step} (hStep : ∀ steps inner found,
      schema.Reaches part steps inner found → outer.Reaches value (step :: steps) inner found)
    (h : Traced schema (path.child step) part [] rejection) :
    Traced outer path value [] rejection := by
  have hLift : Traced outer path value ([step] ++ []) rejection := h.lift rfl hStep
  exact hLift.of_prefix List.nil_prefix

end

/-! One case for each shape of schema -/

/-- Every rejection by the schema is traced. -/
def Traceable (schema : Schema) : Prop :=
  ∀ path value rejection, evalAt schema path value = .error (.rejected rejection) →
    Traced schema path value [] rejection

/-- A sequence rejects what is no array. All other rejections come from an item, one step below. -/
theorem traceable_sequence {origin : Origin} {item : Schema} (hItem : Traceable item) :
    Traceable (.sequence origin item) := by
  intro path value rejection h
  cases value with
  | array items =>
      rw [evalAt, bind_eq_error_iff] at h
      rcases h with hEach | ⟨values, _, hPure⟩
      · obtain ⟨position, found, hAt, hFound⟩ := evalEach_error hEach
        rw [Nat.zero_add] at hFound
        exact (hItem _ _ _ hFound).of_child fun steps inner part hInner => .sequence hAt hInner
      · cases hPure
  | _ => exact traced_of_isRejectionAt rfl h (reject_error h)

/-- A tuple also rejects arrays of another length, at its own place. -/
theorem traceable_tuple {origin : Origin} {schemas : List Schema}
    (hSchemas : ∀ schema ∈ schemas, Traceable schema) : Traceable (.tuple origin schemas) := by
  intro path value rejection h
  cases value with
  | array items =>
      have hEval := h
      rw [evalAt] at h
      split at h
      · rcases bind_eq_error_iff.mp h with hItems | ⟨values, _, hPure⟩
        · obtain ⟨position, schema, found, hSchema, hAt, hFound⟩ := evalItems_error hItems
          rw [Nat.zero_add] at hFound
          have hTraced := hSchemas schema (List.mem_of_getElem? hSchema) _ _ _ hFound
          exact hTraced.of_child fun steps inner part hInner => .tuple hSchema hAt hInner
        · cases hPure
      · exact traced_of_isRejectionAt rfl hEval (reject_error h)
  | _ => exact traced_of_isRejectionAt rfl h (reject_error h)

/-- Alternatives that all fail leave their rejections behind, in order. -/
theorem causes_of_evalOptions {options : List (Option Schema)} {path : Path} {value : Json}
    {causes : List Rejection} {unsupported : Bool}
    (h : evalOptions options path value = .ok (.failed causes unsupported)) :
    causes = causesAt (.union options) path value := by
  induction options generalizing causes unsupported with
  | nil =>
      cases h
      rfl
  | cons option more ih =>
      cases option with
      | none => exact ih h
      | some schema =>
          have hFirst : causesAt (.union (some schema :: more)) path value =
              (schema.rejection? path value).toList ++ causesAt (.union more) path value := by
            rw [causesAt, List.filterMap_cons, Option.bind_some]
            cases schema.rejection? path value <;> rfl
          rw [hFirst, rejection?]
          rw [evalOptions] at h
          split at h
          · cases h
          · next rejection hRejected =>
            generalize hMore : evalOptions more path value = trial at h
            rcases trial with error | accepted | ⟨later, _⟩ <;> cases h
            rw [hRejected, ← ih hMore]
            rfl
          · next obstacle hUnsupported =>
            generalize hMore : evalOptions more path value = trial at h
            rcases trial with error | accepted | ⟨later, _⟩ <;> cases h
            rw [hUnsupported, ← ih hMore]
            rfl
          · cases h

/-- A union rejects the value with the rejections of its alternatives as causes, in their order. -/
theorem rejects_union {options : List (Option Schema)} {path : Path} {value : Json}
    {rejection : Rejection} (h : evalAt (.union options) path value = .error (.rejected rejection)) :
    Rejects (.union options) path value rejection := by
  have hEval := h
  by_cases hNull : value = .null ∧ none ∈ options
  · obtain ⟨rfl, hNone⟩ := hNull
    rw [evalAt_union_null hNone] at h
    cases h
  · rw [evalAt_union_of_not_null hNull] at h
    rcases bind_eq_error_iff.mp h with hOptions | ⟨trial, hTrial, hConclude⟩
    · obtain ⟨_, _, _, hNotMild⟩ := evalOptions_error hOptions
      exact absurd (.inl ⟨rejection, rfl⟩) hNotMild
    · rcases trial with accepted | ⟨causes, unsupported⟩
      · cases hConclude
      · have hCauses := causes_of_evalOptions hTrial
        rcases causes with _ | _ <;> rcases unsupported with _ | _ <;> cases hConclude <;>
          exact ⟨hEval, rfl, hCauses⟩

/-- The causes of a union are traced by its alternatives, which are tried on the value itself. -/
theorem traceable_union {options : List (Option Schema)}
    (hOptions : ∀ option, some option ∈ options → Traceable option) :
    Traceable (.union options) := by
  intro path value rejection h
  have hRejects := rejects_union h
  apply Traced.own hRejects
  intro cause hCause
  rw [hRejects.causes_eq, causesAt, List.mem_filterMap] at hCause
  obtain ⟨option, hOption, hCause⟩ := hCause
  obtain ⟨schema, rfl, hSchema⟩ := Option.bind_eq_some_iff.mp hCause
  have hTraced := hOptions schema hOption _ _ _ (rejection?_eq_some_iff.mp hSchema)
  exact hTraced.lift (List.append_nil path).symm fun steps inner part hInner =>
    .union hOption hInner

/-- An object rejects unknown, missing and skipped fields at its own place. All other rejections
come from a member. -/
theorem traceable_object {object : ObjectSchema Schema}
    (hFields : ∀ field ∈ object.fields, Traceable field.schema) : Traceable (.object object) := by
  intro path value rejection h
  have hEval := h
  rw [evalAt_object] at h
  rcases evalObject_error h with hOwn | ⟨_, _, _, he⟩ | ⟨members, rfl, member, hMember, hField⟩
  · exact traced_of_isRejectionAt rfl hEval hOwn
  · cases he
  · obtain ⟨found, hFind, hItem⟩ := hField
    have hName : findField? (object.fields.map (Field.map evalAt)) member.1 =
        (findField? object.fields member.1).map (Field.map evalAt) := List.find?_map ..
    rw [ObjectSchema.map, hName] at hFind
    obtain ⟨field, hField, rfl⟩ := Option.map_eq_some_iff.mp hFind
    have hTraced := hFields field (List.mem_of_find?_eq_some hField) _ _ _ hItem
    exact hTraced.of_child fun steps inner part hInner => .object hMember hField hInner

/-- By induction over the schema: one case for each shape above. -/
theorem traceable (schema : Schema) : Traceable schema := by
  induction schema using Schema.induction with
  | undefined type => exact fun _ _ _ h => nomatch h
  | primitive kind => exact fun _ _ _ h => traced_of_isRejectionAt rfl h (evalScalar_error h)
  | sequence _ _ ih => exact traceable_sequence ih
  | tuple _ _ ih => exact traceable_tuple ih
  | mapping _ _ _ _ _ => exact fun _ _ _ h => nomatch h
  | union _ ih => exact traceable_union ih
  | literal options => exact fun _ _ _ h => traced_of_isRejectionAt rfl h (evalLiteral_error h)
  | object _ ih => exact traceable_object ih

/-- A trace leads along the value, so the report of a traced rejection points to parts of the
value. -/
theorem Traced.pointsInto {schema : Schema} {path above : Path} {value : Json}
    {rejection : Rejection} (h : Traced schema path value above rejection) :
    rejection.report.PointsInto path.text value above := by
  induction h with
  | @mk above steps inner part rejection hAbove hReaches hRejects _ ih =>
      obtain ⟨place, mismatch, causes⟩ := rejection
      obtain rfl : place = path ++ steps := hRejects.path_eq
      rw [Rejection.report, Path.text_append]
      apply Report.PointsInto.mk hAbove hReaches.leads
      rw [Rejection.reports_eq_map]
      exact List.forall_mem_map.mpr ih

/-- The places that a rejection and its causes name are the place of the value, followed by steps
to an existing part of it, and the steps of a cause go on from those above it. Each of them is the
rejection by a schema for that part. A union has as causes the rejections by its alternatives. -/
theorem rejection_points_to_parts {schema : Schema} {path : Path} {value : Json}
    {rejection : Rejection} (h : evalAt schema path value = .error (.rejected rejection)) :
    rejection.report.PointsInto path.text value [] ∧ Traced schema path value [] rejection ∧
      ∀ options, schema = .union options →
        rejection.causes = options.filterMap fun option => option.bind (·.rejection? path value) := by
  have hTraced := traceable schema path value rejection h
  refine ⟨hTraced.pointsInto, hTraced, ?_⟩
  rintro options rfl
  exact (rejects_union h).causes_eq

/-- Two alternatives reject the second age, one of them for what is inside it. -/
theorem rejection_of_second_age :
    ∃ schema rejection, schema = .object ⟨"visit", .record "visit" [], none, [],
        [⟨"ages", .sequence .list (.union [some (.primitive .int), none,
          some (.sequence .list (.primitive .int))]), none, true⟩]⟩ ∧
      evalAt schema [] (.object [("ages", .array [.int 1, .array [.str "x"]])]) =
        .error (.rejected rejection) ∧
      rejection.path = [.field "ages", .index 1] ∧
      rejection.causes.map Rejection.path =
        [[.field "ages", .index 1], [.field "ages", .index 1, .index 0]] ∧
      rejection.report.PointsInto (Path.text [])
        (.object [("ages", .array [.int 1, .array [.str "x"]])]) [] ∧
      Traced schema [] (.object [("ages", .array [.int 1, .array [.str "x"]])]) [] rejection := by
  refine ⟨_, _, rfl, rfl, rfl, rfl, ?_⟩
  exact And.imp_right And.left (rejection_points_to_parts rfl)

end Schema

end ToolSchema
