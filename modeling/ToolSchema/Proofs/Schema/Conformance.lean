import ToolSchema.Proofs.Schema.Objects

/-! Which values conform to a schema and what is built from them, without an
order of checks. Evaluation decides this relation and builds the same value. -/
namespace ToolSchema.Schema

/-- The values that conform to a schema, whatever is built from them. -/
inductive Fits : Schema → Json → Prop
  | bool (b : Bool) : Fits (.primitive .bool) (.bool b)
  | str (text : String) : Fits (.primitive .str) (.str text)
  | int (n : Int64) : Fits (.primitive .int) (.int n.toInt)
  | float (x : Binary64) : Fits (.primitive .float) (.float x)
  | floatOfInt (n : Int) : Fits (.primitive .float) (.int n)
  | sequence {origin : Origin} {item : Schema} {items : List Json}
      (hItems : ∀ value ∈ items, Fits item value) : Fits (.sequence origin item) (.array items)
  | tuple {origin : Origin} {schemas : List Schema} {items : List Json}
      (hLength : items.length = schemas.length)
      (hItems : ∀ schema value, (schema, value) ∈ schemas.zip items → Fits schema value) :
      Fits (.tuple origin schemas) (.array items)
  | null {options : List (Option Schema)} (hNull : none ∈ options) : Fits (.union options) .null
  | union {options : List (Option Schema)} {schema : Schema} {value : Json}
      (hOption : some schema ∈ options) (h : Fits schema value) : Fits (.union options) value
  | literal {options : List Constant} {value : Json} {constant : Constant}
      (hOption : constant ∈ options) (hAccepts : constant.accepts value = true) :
      Fits (.literal options) value
  | object {object : ObjectSchema Schema} {members : List (String × Json)}
      (hKnown : ∀ member ∈ members, ∃ field ∈ object.fields, field.name = member.1)
      (hItems : ∀ member ∈ members, ∀ field ∈ object.fields, field.name = member.1 →
        Fits field.schema member.2)
      (hRequired : ∀ field ∈ object.fields, field.required = true →
        field.name ∈ Entries.keys members)
      (hGapFree : object.GapFree (Entries.keys members)) :
      Fits (.object object) (.object members)

/-- A derivation that a value conforms to a schema, with what it builds. The
first alternative that the value fits is the one that builds. -/
inductive Conforms : Schema → Json → Value → Prop
  | bool (b : Bool) : Conforms (.primitive .bool) (.bool b) (.bool b)
  | str (text : String) : Conforms (.primitive .str) (.str text) (.str text)
  | int (n : Int64) : Conforms (.primitive .int) (.int n.toInt) (.int n)
  | float (x : Binary64) : Conforms (.primitive .float) (.float x) (.float x)
  | floatOfInt (n : Int) : Conforms (.primitive .float) (.int n) (.float (Binary64.ofInt n))
  | sequence {origin : Origin} {item : Schema} {items : List Json} {results : List Value}
      (hLength : items.length = results.length)
      (hItems : ∀ value result, (value, result) ∈ items.zip results → Conforms item value result) :
      Conforms (.sequence origin item) (.array items)
        (if origin = .tuple then .tuple results else .list results)
  | tuple {origin : Origin} {schemas : List Schema} {items : List Json} {results : List Value}
      (hLength : items.length = schemas.length) (hResults : (schemas.zip items).length = results.length)
      (hItems : ∀ pair result, (pair, result) ∈ (schemas.zip items).zip results →
        Conforms pair.1 pair.2 result) :
      Conforms (.tuple origin schemas) (.array items) (.tuple results)
  | null {options : List (Option Schema)} (hNull : none ∈ options) :
      Conforms (.union options) .null .absent
  | union {options before after : List (Option Schema)} {schema : Schema} {value : Json}
      {result : Value} (hOptions : options = before ++ some schema :: after)
      (hNull : ¬ (value = .null ∧ none ∈ options))
      (hBefore : ∀ earlier, some earlier ∈ before → ¬ Fits earlier value)
      (h : Conforms schema value result) : Conforms (.union options) value result
  | literal {options before after : List Constant} {value : Json} {constant : Constant}
      (hOptions : options = before ++ constant :: after)
      (hBefore : ∀ earlier ∈ before, earlier.accepts value = false)
      (hAccepts : constant.accepts value = true) :
      Conforms (.literal options) value constant.toValue
  | object {object : ObjectSchema Schema} {members : List (String × Json)} {values : List Value}
      {result : Value} (hKnown : ∀ member ∈ members, ∃ field ∈ object.fields, field.name = member.1)
      (hLength : members.length = values.length)
      (hItems : ∀ member value, (member, value) ∈ members.zip values → ∀ field ∈ object.fields,
        field.name = member.1 → Conforms field.schema member.2 value)
      (hRequired : ∀ field ∈ object.fields, field.required = true →
        field.name ∈ Entries.keys members)
      (hGapFree : object.GapFree (Entries.keys members))
      (hResult : object.construct
        (object.arguments (Entries.ofPairs ((Entries.keys members).zip values))) = .ok result) :
      Conforms (.object object) (.object members) result

open Except (bind_eq_ok_iff bind_eq_error_iff pure_eq_ok_iff)

/-- Only an integer that fits in 64 bits has a machine integer. -/
theorem int64?_eq_some_iff (value : Json) (n : Int64) :
    value.int64? = some n ↔ value = .int n.toInt := by
  cases value with
  | int m =>
      rw [Json.int64?]
      constructor
      · intro h
        split at h
        · next hRange =>
          cases h
          rw [Int64.toInt_ofInt_of_le hRange.1 (Int.lt_of_le_of_lt hRange.2 (by decide))]
        · cases h
      · intro h
        cases h
        rw [if_pos ⟨n.minValue_le_toInt, n.toInt_le⟩, Int64.ofInt_toInt]
  | _ => simp [Json.int64?]

/-- If some alternative has a property, one of them is the first that has it. -/
theorem exists_first {p : Schema → Prop} {options : List (Option Schema)} {schema : Schema}
    (hOption : some schema ∈ options) (h : p schema) :
    ∃ before first after, options = before ++ some first :: after ∧ p first ∧
      ∀ earlier, some earlier ∈ before → ¬ p earlier := by
  induction options with
  | nil => cases hOption
  | cons option more ih =>
      by_cases hFirst : ∃ first, option = some first ∧ p first
      · obtain ⟨first, rfl, hp⟩ := hFirst
        exact ⟨[], first, more, rfl, hp, nofun⟩
      · have hMore : some schema ∈ more := by
          rcases List.mem_cons.mp hOption with he | hMore
          · exact absurd ⟨schema, he.symm, h⟩ hFirst
          · exact hMore
        obtain ⟨before, first, after, rfl, hp, hBefore⟩ := ih hMore
        refine ⟨option :: before, first, after, rfl, hp, fun earlier hm hEarlier => ?_⟩
        rcases List.mem_cons.mp hm with rfl | hm
        · exact hFirst ⟨earlier, rfl, hEarlier⟩
        · exact hBefore earlier hm hEarlier

/-! The relations on composite schemas -/

/-- The constructor for sequences with items and results side by side, which is the form that
induction over lists needs. -/
theorem conforms_sequence_iff {origin : Origin} {item : Schema} {items : List Json}
    {result : Value} :
    Conforms (.sequence origin item) (.array items) result ↔
      ∃ results, List.Forall₂ (Conforms item) items results ∧
        (if origin = .tuple then .tuple results else .list results) = result := by
  constructor
  · intro h
    cases h with
    | sequence hLength hItems => exact ⟨_, List.forall₂_iff_zip.mpr ⟨hLength, hItems _ _⟩, rfl⟩
  · rintro ⟨results, hItems, rfl⟩
    exact .sequence hItems.length_eq fun _ _ => List.forall₂_zip hItems

theorem conforms_tuple_iff {origin : Origin} {schemas : List Schema} {items : List Json}
    {result : Value} :
    Conforms (.tuple origin schemas) (.array items) result ↔
      items.length = schemas.length ∧ ∃ results,
        List.Forall₂ (fun pair result => Conforms pair.1 pair.2 result) (schemas.zip items) results ∧
          .tuple results = result := by
  constructor
  · intro h
    cases h with
    | tuple hLength hResults hItems =>
      exact ⟨hLength, _, List.forall₂_iff_zip.mpr ⟨hResults, hItems _ _⟩, rfl⟩
  · rintro ⟨hLength, results, hItems, rfl⟩
    exact .tuple hLength hItems.length_eq fun _ _ => List.forall₂_zip hItems

/-- Field names are distinct, so each member belongs to one field, and members and values can be
paired. -/
theorem conforms_object_iff {object : ObjectSchema Schema} (hDistinct : object.DistinctNames)
    {members : List (String × Json)} {result : Value} :
    Conforms (.object object) (.object members) result ↔
      ∃ values, List.Forall₂ (fun member value => ∃ field ∈ object.fields, field.name = member.1 ∧
          Conforms field.schema member.2 value) members values ∧
        (∀ field ∈ object.fields, field.required = true → field.name ∈ Entries.keys members) ∧
        object.GapFree (Entries.keys members) ∧
        object.construct
          (object.arguments (Entries.ofPairs ((Entries.keys members).zip values))) = .ok result := by
  constructor
  · intro h
    cases h with
    | object hKnown hLength hItems hRequired hGapFree hResult =>
      refine ⟨_, List.forall₂_iff_zip.mpr ⟨hLength, ?_⟩, hRequired, hGapFree, hResult⟩
      intro member value hm
      obtain ⟨field, hField, hName⟩ := hKnown member (List.of_mem_zip hm).1
      exact ⟨field, hField, hName, hItems member value hm field hField hName⟩
  · rintro ⟨values, hItems, hRequired, hGapFree, hResult⟩
    refine .object (fun member hm => ?_) hItems.length_eq (fun member value hm field hField hName => ?_)
      hRequired hGapFree hResult
    · obtain ⟨value, field, hField, hName, _⟩ := (List.exists_forall₂_iff members).mp ⟨_, hItems⟩ member hm
      exact ⟨field, hField, hName⟩
    · obtain ⟨other, hOther, hSame, hConforms⟩ := List.forall₂_zip hItems hm
      rwa [← List.inj_on_of_nodup_map hDistinct hOther hField (hSame.trans hName.symm)]

/-! What fits is what something can be built from -/

/-- Each way for a scalar to fit has a value that is built. -/
theorem primitive_fits_iff (kind : Scalar) (value : Json) :
    Fits (.primitive kind) value ↔ ∃ result, Conforms (.primitive kind) value result := by
  constructor
  · intro h
    cases h with
    | bool b => exact ⟨_, .bool b⟩
    | str text => exact ⟨_, .str text⟩
    | int n => exact ⟨_, .int n⟩
    | float x => exact ⟨_, .float x⟩
    | floatOfInt n => exact ⟨_, .floatOfInt n⟩
  · intro h
    obtain ⟨result, h⟩ := h
    cases h with
    | bool b => exact .bool b
    | str text => exact .str text
    | int n => exact .int n
    | float x => exact .float x
    | floatOfInt n => exact .floatOfInt n

/-- If something can be built from each item, then also from all of them together. -/
theorem sequence_fits_iff {origin : Origin} {item : Schema}
    (hItem : ∀ value, Fits item value ↔ ∃ result, Conforms item value result) (value : Json) :
    Fits (.sequence origin item) value ↔
      ∃ result, Conforms (.sequence origin item) value result := by
  constructor
  · intro h
    cases h with
    | sequence hItems =>
      obtain ⟨results, hResults⟩ := (List.exists_forall₂_iff _).mpr fun value hm =>
        (hItem value).mp (hItems value hm)
      exact ⟨_, conforms_sequence_iff.mpr ⟨results, hResults, rfl⟩⟩
  · intro h
    obtain ⟨result, h⟩ := h
    cases h with
    | sequence hLength hItems =>
      have hResults := List.forall₂_iff_zip.mpr ⟨hLength, hItems _ _⟩
      exact .sequence fun value hm =>
        (hItem value).mpr ((List.exists_forall₂_iff _).mp ⟨_, hResults⟩ value hm)

theorem tuple_fits_iff {origin : Origin} {schemas : List Schema}
    (hSchemas : ∀ schema ∈ schemas, ∀ value,
      Fits schema value ↔ ∃ result, Conforms schema value result) (value : Json) :
    Fits (.tuple origin schemas) value ↔
      ∃ result, Conforms (.tuple origin schemas) value result := by
  constructor
  · intro h
    cases h with
    | tuple hLength hItems =>
      obtain ⟨results, hResults⟩ := (List.exists_forall₂_iff _).mpr fun pair hm =>
        (hSchemas pair.1 (List.of_mem_zip hm).1 pair.2).mp (hItems pair.1 pair.2 hm)
      exact ⟨_, conforms_tuple_iff.mpr ⟨hLength, results, hResults, rfl⟩⟩
  · intro h
    obtain ⟨result, h⟩ := h
    cases h with
    | tuple hLength hResults hItems =>
      have hPairs := List.forall₂_iff_zip.mpr ⟨hResults, hItems _ _⟩
      exact .tuple hLength fun schema value hm => (hSchemas schema (List.of_mem_zip hm).1 value).mpr
        ((List.exists_forall₂_iff _).mp ⟨_, hPairs⟩ (schema, value) hm)

/-- A value that fits some alternative of a union conforms by the first that
it fits. -/
theorem union_fits_iff {options : List (Option Schema)} {value : Json}
    (hOptions : ∀ option, some option ∈ options →
      (Fits option value ↔ ∃ result, Conforms option value result)) :
    Fits (.union options) value ↔ ∃ result, Conforms (.union options) value result := by
  constructor
  · intro h
    by_cases hNull : value = .null ∧ none ∈ options
    · obtain ⟨rfl, hNone⟩ := hNull
      exact ⟨.absent, .null hNone⟩
    · cases h with
      | null hNone => exact absurd ⟨rfl, hNone⟩ hNull
      | union hOption hFits =>
        obtain ⟨before, first, after, rfl, hFirst, hBefore⟩ :=
          @exists_first (fun option => Fits option value) _ _ hOption hFits
        obtain ⟨result, hResult⟩ := (hOptions first (by simp)).mp hFirst
        exact ⟨result, .union rfl hNull hBefore hResult⟩
  · intro h
    obtain ⟨result, h⟩ := h
    cases h with
    | null hNone => exact .null hNone
    | @union _ before after schema _ _ hSplit _ _ hConforms =>
      have hOption : some schema ∈ options := by simp [hSplit]
      exact .union hOption ((hOptions schema hOption).mpr ⟨result, hConforms⟩)

theorem literal_fits_iff (options : List Constant) (value : Json) :
    Fits (.literal options) value ↔ ∃ result, Conforms (.literal options) value result := by
  constructor
  · intro h
    cases h with
    | literal hOption hAccepts =>
      obtain ⟨constant, hFind⟩ := Option.isSome_iff_exists.mp
        ((List.find?_isSome (p := fun option => option.accepts value)).mpr ⟨_, hOption, hAccepts⟩)
      obtain ⟨hAccepts, before, after, rfl, hBefore⟩ := List.find?_eq_some_iff_append.mp hFind
      exact ⟨_, .literal rfl (fun earlier hm => by simpa using hBefore earlier hm) hAccepts⟩
  · intro h
    obtain ⟨result, h⟩ := h
    cases h with
    | literal hOptions _ hAccepts => exact .literal (hOptions ▸ by simp) hAccepts

/-- A constructor that accepts everything builds something from any members that fit. -/
theorem object_fits_iff {object : ObjectSchema Schema} (hDistinct : object.DistinctNames)
    (hTotal : object.Total)
    (hFields : ∀ field ∈ object.fields, ∀ value,
      Fits field.schema value ↔ ∃ result, Conforms field.schema value result) (value : Json) :
    Fits (.object object) value ↔ ∃ result, Conforms (.object object) value result := by
  constructor
  · intro h
    cases h with
    | @object _ members hKnown hItems hRequired hGapFree =>
      have hMembers : ∀ member ∈ members, ∃ value, ∃ field ∈ object.fields,
          field.name = member.1 ∧ Conforms field.schema member.2 value := by
        intro member hm
        obtain ⟨field, hField, hName⟩ := hKnown member hm
        obtain ⟨value, hValue⟩ :=
          (hFields field hField member.2).mp (hItems member hm field hField hName)
        exact ⟨value, field, hField, hName, hValue⟩
      obtain ⟨values, hValues⟩ := (List.exists_forall₂_iff members).mpr hMembers
      obtain ⟨result, hResult⟩ :=
        hTotal (object.arguments (Entries.ofPairs ((Entries.keys members).zip values)))
      exact ⟨result, (conforms_object_iff hDistinct).mpr
        ⟨values, hValues, hRequired, hGapFree, hResult⟩⟩
  · intro h
    obtain ⟨result, h⟩ := h
    cases h with
    | @object _ members values _ hKnown hLength hItems hRequired hGapFree _ =>
      refine .object hKnown (fun member hm field hField hName => ?_) hRequired hGapFree
      obtain ⟨value, hValue⟩ := (List.exists_forall₂_iff members).mp
        ⟨values, List.forall₂_iff_zip.mpr ⟨hLength, hItems _ _⟩⟩ member hm
      exact (hFields field hField member.2).mpr ⟨value, hValue field hField hName⟩

/-- A value fits a schema if and only if something can be built from it. -/
theorem fits_iff_exists_conforms {schema : Schema}
    (h : schema.Everywhere fun object => object.DistinctNames ∧ object.Total) (value : Json) :
    Fits schema value ↔ ∃ result, Conforms schema value result := by
  induction h generalizing value with
  | undefined type => exact ⟨nofun, nofun⟩
  | primitive kind => exact primitive_fits_iff kind value
  | sequence _ ih => exact sequence_fits_iff ih value
  | tuple _ ih => exact tuple_fits_iff ih value
  | mapping _ _ => exact ⟨nofun, nofun⟩
  | union _ ih => exact union_fits_iff fun option hm => ih option hm value
  | literal options => exact literal_fits_iff options value
  | object hObject _ ih => exact object_fits_iff hObject.1 hObject.2 ih value

/-! Evaluation decides the relations -/

/-- Evaluation of a scalar follows the derivations for scalars, one match for each of them. -/
theorem evalScalar_eq_ok_iff (kind : Scalar) (path : Path) (value : Json) (result : Value) :
    evalScalar kind path value = .ok result ↔ Conforms (.primitive kind) value result := by
  constructor
  · intro h
    unfold evalScalar at h
    split at h
    · cases h
      exact .bool _
    · cases h
      exact .str _
    · split at h
      · next n hInt =>
        cases h
        rw [int64?_eq_some_iff] at hInt
        exact hInt ▸ .int n
      · cases h
    · split at h
      · next x hNumber =>
        cases h
        cases value <;> cases hNumber
        · exact .floatOfInt _
        · exact .float _
      · cases h
    · cases h
  · intro h
    cases h with
    | bool b => rfl
    | str text => rfl
    | int n => simp [evalScalar, (int64?_eq_some_iff (.int n.toInt) n).mpr rfl]
    | float x => rfl
    | floatOfInt n => rfl

/-- Evaluation takes the first constant that is equal to the value. -/
theorem evalLiteral_eq_ok_iff (options : List Constant) (path : Path) (value : Json)
    (result : Value) :
    evalLiteral options path value = .ok result ↔ Conforms (.literal options) value result := by
  rw [evalLiteral]
  constructor
  · intro h
    split at h
    · next constant hFind =>
      cases h
      obtain ⟨hAccepts, before, after, rfl, hBefore⟩ := List.find?_eq_some_iff_append.mp hFind
      exact .literal rfl (fun earlier hm => by simpa using hBefore earlier hm) hAccepts
    · cases h
  · intro h
    cases h with
    | @literal _ before after _ constant hOptions hBefore hAccepts =>
      have hFind : (options.find? fun option => option.accepts value) = some constant :=
        List.find?_eq_some_iff_append.mpr
          ⟨hAccepts, before, after, hOptions, fun earlier hm => by simp [hBefore earlier hm]⟩
      rw [hFind]

/-- What does not fit fails in a way that a union gets over. -/
theorem not_fits_iff {schema : Schema}
    (h : schema.Everywhere fun object => object.DistinctNames ∧ object.Total)
    {path : Path} {value : Json}
    (hEval : ∀ result, evalAt schema path value = .ok result ↔ Conforms schema value result) :
    ¬ Fits schema value ↔ ∃ error, evalAt schema path value = .error error ∧ error.IsMild := by
  rw [fits_iff_exists_conforms h]
  constructor
  · intro hNone
    cases hCase : evalAt schema path value with
    | ok result => exact absurd ⟨result, (hEval result).mp hCase⟩ hNone
    | error error => exact ⟨error, rfl, evalAt_error_of_total (h.imp fun _ h => h.2) hCase⟩
  · rintro ⟨error, hError, _⟩ ⟨result, hResult⟩
    rw [(hEval result).mpr hResult] at hError
    cases hError

/-- The alternative that builds is the first that the value fits. Those before it must fail, which
is why both relations are needed here. -/
theorem evalAt_union_conforms_iff {options : List (Option Schema)} {path : Path} {value : Json}
    (hOptions : ∀ schema, some schema ∈ options →
      schema.Everywhere fun object => object.DistinctNames ∧ object.Total)
    (hEval : ∀ schema, some schema ∈ options → ∀ result,
      evalAt schema path value = .ok result ↔ Conforms schema value result) (result : Value) :
    evalAt (.union options) path value = .ok result ↔ Conforms (.union options) value result := by
  by_cases hNull : value = .null ∧ none ∈ options
  · obtain ⟨rfl, hNone⟩ := hNull
    rw [evalAt_union_null hNone]
    constructor
    · intro h
      cases h
      exact .null hNone
    · intro h
      cases h with
      | null _ => rfl
      | union _ hNull => exact absurd ⟨rfl, hNone⟩ hNull
  · have hBefore (earlier : Schema) (hm : some earlier ∈ options) :
        ¬ Fits earlier value ↔
          ∃ error, evalAt earlier path value = .error error ∧ error.IsMild :=
      not_fits_iff (hOptions earlier hm) (hEval earlier hm)
    rw [evalAt_union_eq_ok_iff hNull, evalOptions_eq_accepted_iff]
    constructor
    · intro h
      obtain ⟨before, schema, after, rfl, hSchema, hEarlier⟩ := h
      refine .union rfl hNull (fun earlier hm => ?_) ((hEval schema (by simp) result).mp hSchema)
      exact (hBefore earlier (List.mem_append_left _ hm)).mpr (hEarlier earlier hm)
    · intro h
      cases h with
      | null hNone => exact absurd ⟨rfl, hNone⟩ hNull
      | @union _ before after schema _ _ hSplit _ hEarlier hConforms =>
        subst hSplit
        refine ⟨before, schema, after, rfl, (hEval schema (by simp) result).mpr hConforms, ?_⟩
        intro earlier hm
        exact (hBefore earlier (List.mem_append_left _ hm)).mp (hEarlier earlier hm)

/-- By induction over the schema, with evaluation at any place. -/
theorem evalAt_eq_ok_iff_conforms {schema : Schema}
    (h : schema.Everywhere fun object => object.DistinctNames ∧ object.Total) (path : Path)
    (value : Json) (result : Value) :
    evalAt schema path value = .ok result ↔ Conforms schema value result := by
  induction h generalizing path value result with
  | undefined type => constructor <;> intro h <;> cases h
  | primitive kind => rw [evalAt, evalScalar_eq_ok_iff]
  | sequence _ ih =>
      cases value with
      | array items =>
          rw [evalAt, conforms_sequence_iff]
          simp only [bind_eq_ok_iff, pure_eq_ok_iff, evalEach_eq_ok_iff ih]
      | _ => constructor <;> intro h <;> cases h
  | @tuple _ schemas _ ih =>
      cases value with
      | array items =>
          rw [evalAt, conforms_tuple_iff]
          by_cases hLength : items.length = schemas.length
          · rw [if_pos hLength]
            simp only [bind_eq_ok_iff, pure_eq_ok_iff, evalItems_eq_ok_iff ih, hLength, true_and]
          · rw [if_neg hLength]
            exact ⟨fun h => (by cases h), fun h => absurd h.1 hLength⟩
      | _ => constructor <;> intro h <;> cases h
  | mapping _ _ => constructor <;> intro h <;> cases h
  | union hOptions ih =>
      exact evalAt_union_conforms_iff hOptions (fun schema hm => ih schema hm path value) result
  | literal options => rw [evalAt, evalLiteral_eq_ok_iff]
  | @object object hObject _ ih =>
      cases value with
      | object members =>
          have hFields (member : String × Json) (value : Value) :
              (∃ field ∈ object.fields, field.name = member.1 ∧
                  evalAt field.schema (path.child (.field member.1)) member.2 = .ok value) ↔
                ∃ field ∈ object.fields, field.name = member.1 ∧
                  Conforms field.schema member.2 value :=
            exists_congr fun field => and_congr_right fun hm => and_congr_right fun _ =>
              ih field hm _ _ _
          rw [evalAt_object_eq_ok_iff hObject.1, conforms_object_iff hObject.1]
          simp only [hFields]
      | _ =>
          constructor
          · intro h
            obtain ⟨_, he⟩ := value_of_evalAt_object h
            cases he
          · intro h
            cases h

/-- Evaluation implements conformance: it succeeds on the values that fit, at
every place, with what the derivation builds, and it fails on all others with
a rejection or because the schema is not supported. -/
theorem evaluation_implements_conformance {schema : Schema}
    (h : schema.Everywhere fun object => object.DistinctNames ∧ object.Total) (path : Path)
    (value : Json) :
    (∀ result, evalAt schema path value = .ok result ↔ Conforms schema value result) ∧
      (Fits schema value ↔ ∃ result, Conforms schema value result) ∧
      (¬ Fits schema value → ∃ error, evalAt schema path value = .error error ∧
        ((∃ rejection, error = .rejected rejection) ∨ ∃ obstacle, error = .unsupported obstacle)) := by
  have hEval := evalAt_eq_ok_iff_conforms h path value
  exact ⟨hEval, fits_iff_exists_conforms h value, (not_fits_iff h hEval).mp⟩

/-- A point with its label given first, as a derivation. -/
theorem record_conforms :
    Conforms (.object ⟨"Point", .record "Point" ["x"], none, ["x"],
        [⟨"x", .primitive .int, none, true⟩,
          ⟨"label", .union [some (.primitive .str), none], none, false⟩]⟩)
      (.object [("label", .str "home"), ("x", .int 3)])
      (.record "Point" [("x", .int 3), ("label", .str "home")]) := by
  refine ((evaluation_implements_conformance ?_ [] _).1 _).mp (by rfl)
  refine .object ⟨by unfold ObjectSchema.DistinctNames; decide, fun args => ⟨_, rfl⟩⟩ fun field hm => ?_
  rcases List.mem_pair.mp hm with rfl | rfl
  · exact .primitive .int
  · refine .union fun option hOption => ?_
    rcases List.mem_pair.mp hOption with he | he
    · cases he
      exact .primitive .str
    · cases he

end ToolSchema.Schema
