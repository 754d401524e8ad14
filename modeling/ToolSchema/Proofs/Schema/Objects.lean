import ToolSchema.Proofs.Schema.Operations

/-! Evaluation of objects. The members are evaluated in their order, but what
comes out is decided by the values under the names of the fields. -/
namespace ToolSchema

namespace Schema

open Except (bind_eq_ok_iff bind_eq_error_iff pure_eq_ok_iff)

/-- The schemas of the fields become evaluators, and nothing else changes. -/
theorem evalFields_eq_map (fields : List (Field Schema)) :
    evalFields fields = fields.map (Field.map evalAt) := by
  induction fields with
  | nil => rfl
  | cons field more ih => exact congrArg _ ih

/-- An object schema is evaluated as the object of its evaluators, which is the form that all lemmas
here are about. -/
theorem evalAt_object (object : ObjectSchema Schema) (path : Path) (value : Json) :
    evalAt (.object object) path value = evalObject (object.map evalAt) path value := by
  rw [evalAt, evalFields_eq_map]
  rfl

theorem name_of_findField? {α : Type} {fields : List (Field α)} {name : String} {field : Field α}
    (h : findField? fields name = some field) : field.name = name := by
  simpa using List.find?_some h

/-- With distinct names every field is the one that is found under its name. -/
theorem findField?_eq_some_iff {α : Type} {fields : List (Field α)}
    (hDistinct : (fields.map (·.name)).Nodup) (name : String) (field : Field α) :
    findField? fields name = some field ↔ field ∈ fields ∧ field.name = name := by
  refine ⟨fun h => ⟨List.mem_of_find?_eq_some h, name_of_findField? h⟩, ?_⟩
  rintro ⟨hm, rfl⟩
  induction fields with
  | nil => cases hm
  | cons first more ih =>
      rw [List.map_cons, List.nodup_cons] at hDistinct
      rcases List.mem_cons.mp hm with rfl | hm
      · simp [findField?]
      · have hne : first.name ≠ field.name := fun he =>
          hDistinct.1 (he ▸ List.mem_map_of_mem (f := (·.name)) hm)
        rw [findField?, List.find?_cons_of_neg (by simpa using hne)]
        exact ih hDistinct.2 hm

/-- All members are evaluated, and of members with the same key the last one
counts. -/
theorem evalMembers_eq_ok_iff (fields : List (Field Evaluator)) (path : Path)
    (supplied : Entries Value) (members : List (String × Json)) (all : Entries Value) :
    evalMembers fields path supplied members = .ok all ↔
      ∃ values, List.Forall₂ (fun member value => ∃ field,
          findField? fields member.1 = some field ∧
            field.schema (path.child (.field member.1)) member.2 = .ok value) members values ∧
        all = supplied.insertAll ((Entries.keys members).zip values) := by
  induction members generalizing supplied with
  | nil => simp [evalMembers, Entries.insertAll, eq_comm]
  | cons member more ih =>
      obtain ⟨key, item⟩ := member
      rw [evalMembers]
      cases hField : findField? fields key with
      | none => simp [reject, hField, List.forall₂_cons_left_iff]
      | some field =>
          simp only [bind_eq_ok_iff, ih, List.forall₂_cons_left_iff, hField,
            name_of_findField? hField]
          constructor
          · rintro ⟨value, hValue, values, hValues, rfl⟩
            exact ⟨value :: values, ⟨value, values, ⟨field, rfl, hValue⟩, hValues, rfl⟩, rfl⟩
          · rintro ⟨_, ⟨value, values, ⟨_, he, hValue⟩, hValues, rfl⟩, rfl⟩
            cases he
            exact ⟨value, hValue, values, hValues, rfl⟩

/-- A member fails by its key, at the object, or by its value, one step below. -/
theorem evalMembers_error {fields : List (Field Evaluator)} {path : Path}
    {supplied : Entries Value} {members : List (String × Json)} {error : Error}
    (h : evalMembers fields path supplied members = .error error) :
    error.IsRejectionAt path ∨ ∃ member ∈ members, ∃ field, findField? fields member.1 = some field ∧
      field.schema (path.child (.field member.1)) member.2 = .error error := by
  induction members generalizing supplied with
  | nil => cases h
  | cons member more ih =>
      obtain ⟨key, item⟩ := member
      rw [evalMembers] at h
      split at h
      · exact .inl (reject_error h)
      · next field hField =>
        rcases bind_eq_error_iff.mp h with hItem | ⟨value, _, hMore⟩
        · exact .inr ⟨(key, item), List.mem_cons_self, field, hField, hItem⟩
        · refine (ih hMore).imp_right ?_
          rintro ⟨member, hm, hMember⟩
          exact ⟨member, List.mem_cons_of_mem _ hm, hMember⟩

/-- Nothing is missing if all required fields are given. -/
theorem missingFields_eq_nil_iff {α : Type} (fields : List (Field α)) (supplied : Entries Value) :
    missingFields fields supplied = [] ↔
      ∀ field ∈ fields, field.required = true → field.name ∈ supplied.keys := by
  simp only [missingFields, List.filter_eq_nil_iff, List.mem_map, Bool.and_eq_true,
    List.contains_eq_mem, decide_eq_true_eq, Bool.not_eq_true', not_and, Bool.not_eq_false,
    Entries.hasKey_iff]
  constructor
  · intro h field hm hRequired
    exact h field.name ⟨field, hm, rfl⟩ ⟨field, List.mem_filter.mpr ⟨hm, hRequired⟩, rfl⟩
  · rintro h name - ⟨field, hm, rfl⟩
    exact h field (List.mem_filter.mp hm).1 (List.mem_filter.mp hm).2

/-- Only what is supplied under the names of the fields matters. -/
theorem arrange_congr {α : Type} {fields : List (Field α)} (positionalOnly : List String)
    (path : Path) {a b : Entries Value} (gap : Option String)
    (h : ∀ field ∈ fields, a.get? field.name = b.get? field.name) :
    arrange positionalOnly path a gap fields = arrange positionalOnly path b gap fields := by
  induction fields generalizing a b gap with
  | nil => rfl
  | cons field more ih =>
      rw [List.forall_mem_cons] at h
      have hErase : ∀ later ∈ more,
          (a.erase field.name).get? later.name = (b.erase field.name).get? later.name := by
        intro later hm
        rw [Entries.get?_erase, Entries.get?_erase, h.2 later hm]
      rw [arrange, arrange, h.1]
      cases b.get? field.name with
      | none => exact ih _ h.2
      | some value => rw [ih gap hErase]

/-- The arrangement looks up the names of the fields only. -/
theorem arrange_erase {α : Type} {fields : List (Field α)} {name : String}
    (positionalOnly : List String) (path : Path) (supplied : Entries Value) (gap : Option String)
    (h : name ∉ fields.map (·.name)) :
    arrange positionalOnly path (supplied.erase name) gap fields =
      arrange positionalOnly path supplied gap fields := by
  apply arrange_congr
  intro field hm
  have hne : name ≠ field.name := fun he => h (he ▸ List.mem_map_of_mem (f := (·.name)) hm)
  rw [Entries.get?_erase, if_neg hne]

/-- The arrangement fails for a gap, which the object reports at its own place. -/
theorem arrange_error {α : Type} {fields : List (Field α)} {positionalOnly : List String}
    {path : Path} {supplied : Entries Value} {gap : Option String} {error : Error}
    (h : arrange positionalOnly path supplied gap fields = .error error) :
    error.IsRejectionAt path := by
  induction fields generalizing supplied gap with
  | nil => cases h
  | cons field more ih =>
      simp only [arrange] at h
      split at h
      · exact ih h
      · split at h
        · split at h
          · exact reject_error h
          · rcases bind_eq_error_iff.mp h with hMore | ⟨_, _, hPure⟩
            · exact ih hMore
            · cases hPure
        · rcases bind_eq_error_iff.mp h with hMore | ⟨_, _, hPure⟩
          · exact ih hMore
          · cases hPure

end Schema

/-- The supplied values as arguments. Those of positional-only fields come by
position, all others under the name of their field. -/
def ObjectSchema.arguments {α : Type} (object : ObjectSchema α) (supplied : Entries Value) :
    Arguments where
  positional := object.fields.filterMap fun field =>
    if field.name ∈ object.positionalOnly then supplied.get? field.name else none
  keyword := object.fields.filterMap fun field =>
    if field.name ∈ object.positionalOnly then none
    else (supplied.get? field.name).map (field.name, ·)

/-- No positional-only field that is left out stands before one that is
given. -/
def ObjectSchema.GapFree {α : Type} (object : ObjectSchema α) (given : List String) : Prop :=
  object.fields.Pairwise fun earlier later =>
    earlier.name ∈ object.positionalOnly → later.name ∈ object.positionalOnly →
      later.name ∈ given → earlier.name ∈ given

/-- Whether there is a gap depends on which names are given, not on their order. -/
theorem ObjectSchema.gapFree_congr {α : Type} (object : ObjectSchema α) {a b : List String}
    (h : ∀ name, name ∈ a ↔ name ∈ b) : object.GapFree a ↔ object.GapFree b := by
  simp only [ObjectSchema.GapFree, h]

theorem ObjectSchema.gapFree_map {α β : Type} (f : α → β) (object : ObjectSchema α)
    (given : List String) : (object.map f).GapFree given ↔ object.GapFree given :=
  List.pairwise_map

theorem ObjectSchema.arguments_map {α β : Type} (f : α → β) (object : ObjectSchema α)
    (supplied : Entries Value) : (object.map f).arguments supplied = object.arguments supplied := by
  simp only [ObjectSchema.arguments, ObjectSchema.map, List.filterMap_map]
  rfl

namespace Schema

open Except (bind_eq_ok_iff bind_eq_error_iff pure_eq_ok_iff)

/-- A gap that is already open rules out every further value by position. -/
theorem arrange_eq_ok_iff {object : ObjectSchema Evaluator}
    (hDistinct : (object.fields.map (·.name)).Nodup) (path : Path) (supplied : Entries Value)
    (gap : Option String) (args : Arguments) :
    arrange object.positionalOnly path supplied gap object.fields = .ok args ↔
      (gap.isSome = true → ∀ field ∈ object.fields, field.name ∈ object.positionalOnly →
        field.name ∉ supplied.keys) ∧
      object.GapFree supplied.keys ∧ args = object.arguments supplied := by
  obtain ⟨name, construct, hint, positionalOnly, fields⟩ := object
  simp only [ObjectSchema.GapFree, ObjectSchema.arguments] at hDistinct ⊢
  induction fields generalizing gap args with
  | nil =>
      simp only [arrange, Arguments.empty, Except.ok.injEq, List.not_mem_nil, List.filterMap_nil,
        List.Pairwise.nil, true_and, false_implies, implies_true]
      exact eq_comm
  | cons field more ih =>
      rw [List.map_cons, List.nodup_cons] at hDistinct
      have hErase (gap : Option String) := arrange_erase positionalOnly path supplied gap hDistinct.1
      have hRest := fun gap args => ih gap args hDistinct.2
      simp only [arrange, List.contains_eq_mem, List.pairwise_cons, List.forall_mem_cons,
        List.filterMap_cons]
      cases hGiven : supplied.get? field.name with
      | none =>
          have hAbsent := (Entries.get?_eq_none_iff _ _).mp hGiven
          rw [hRest]
          by_cases hPos : field.name ∈ positionalOnly
          · have hOpen : (gap.or (some field.name)).isSome = true := by cases gap <;> rfl
            simp only [hPos, hAbsent, hOpen, decide_true, if_true, forall_const, not_false_eq_true,
              true_and]
            constructor
            · rintro ⟨hNone, hPairwise, rfl⟩
              exact ⟨fun _ => hNone, ⟨fun later hm hLater hGiven =>
                absurd hGiven (hNone later hm hLater), hPairwise⟩, rfl⟩
            · rintro ⟨-, ⟨hNone, hPairwise⟩, rfl⟩
              exact ⟨fun later hm hLater hGiven => hNone later hm hLater hGiven, hPairwise, rfl⟩
          · simp [hPos]
      | some value =>
          have hPresent : field.name ∈ supplied.keys :=
            (Entries.get?_isSome_iff _ _).mp (by simp [hGiven])
          by_cases hPos : field.name ∈ positionalOnly
          · cases gap with
            | some missing => simp [hPos, hPresent, reject]
            | none =>
                simp only [hPos, hPresent, decide_true, if_true, hErase, bind_eq_ok_iff,
                  pure_eq_ok_iff, hRest]
                constructor
                · rintro ⟨rest, ⟨-, hPairwise, rfl⟩, rfl⟩
                  exact ⟨nofun, ⟨fun _ _ _ _ _ => trivial, hPairwise⟩, rfl⟩
                · rintro ⟨-, ⟨-, hPairwise⟩, rfl⟩
                  exact ⟨_, ⟨nofun, hPairwise, rfl⟩, rfl⟩
          · simp only [hPos, hPresent, decide_false, Bool.false_eq_true, if_false, hErase,
              bind_eq_ok_iff, pure_eq_ok_iff, hRest]
            constructor
            · rintro ⟨rest, ⟨hNone, hPairwise, rfl⟩, rfl⟩
              exact ⟨fun hGap => ⟨nofun, hNone hGap⟩, ⟨nofun, hPairwise⟩, rfl⟩
            · rintro ⟨hNone, ⟨-, hPairwise⟩, rfl⟩
              exact ⟨_, ⟨fun hGap => (hNone hGap).2, hPairwise, rfl⟩, rfl⟩

/-- What follows when all members are evaluated: no required field may be
missing, and the values are arranged and passed to the constructor. -/
def finish (object : ObjectSchema Evaluator) (path : Path) (supplied : Entries Value) :
    Except Error Value :=
  match missingFields object.fields supplied with
  | [] => do
    let args ← arrange object.positionalOnly path supplied none object.fields
    match object.construct args with
    | .ok result => return result
    | .error refusal => .error (.construction object.name refusal)
  | missing => reject path (.missingFields missing)

theorem evalObject_members (object : ObjectSchema Evaluator) (path : Path)
    (members : List (String × Json)) :
    evalObject object path (.object members) =
      evalMembers object.fields path [] members >>= finish object path := rfl

/-- Only what is supplied under each name matters. -/
theorem finish_congr (object : ObjectSchema Evaluator) (path : Path) {a b : Entries Value}
    (h : ∀ key, a.get? key = b.get? key) : finish object path a = finish object path b := by
  have hHas (key : String) : a.hasKey key = b.hasKey key := by
    rw [Bool.eq_iff_iff, Entries.hasKey_iff, Entries.hasKey_iff, ← Entries.get?_isSome_iff,
      ← Entries.get?_isSome_iff, h]
  have hMissing : missingFields object.fields a = missingFields object.fields b := by
    simp only [missingFields, hHas]
  have hArrange : arrange object.positionalOnly path a none object.fields =
      arrange object.positionalOnly path b none object.fields :=
    arrange_congr _ path none fun field _ => h field.name
  rw [finish, finish, hMissing, hArrange]

/-- What must hold of the supplied values, in the order in which it is checked. -/
theorem finish_eq_ok_iff {object : ObjectSchema Evaluator}
    (hDistinct : (object.fields.map (·.name)).Nodup) (path : Path) (supplied : Entries Value)
    (result : Value) :
    finish object path supplied = .ok result ↔
      (∀ field ∈ object.fields, field.required = true → field.name ∈ supplied.keys) ∧
        object.GapFree supplied.keys ∧
        object.construct (object.arguments supplied) = .ok result := by
  have hBuild (args : Arguments) :
      (match object.construct args with
        | .ok result => pure result
        | .error refusal => .error (.construction object.name refusal)) =
          (.ok result : Except Error Value) ↔ object.construct args = .ok result := by
    cases object.construct args with
    | ok built => exact pure_eq_ok_iff.trans (by simp)
    | error refusal => simp
  rw [← missingFields_eq_nil_iff, finish]
  split
  · next hMissing =>
    simp only [bind_eq_ok_iff, arrange_eq_ok_iff hDistinct, hBuild, hMissing, true_and]
    constructor
    · intro h
      obtain ⟨args, ⟨-, hGap, rfl⟩, hResult⟩ := h
      exact ⟨hGap, hResult⟩
    · intro h
      exact ⟨_, ⟨nofun, h.1, rfl⟩, h.2⟩
  · next hMissing =>
    exact ⟨nofun, fun h => absurd h.1 hMissing⟩

/-- The object rejects the values itself, or the constructor does. -/
theorem finish_error {object : ObjectSchema Evaluator} {path : Path} {supplied : Entries Value}
    {error : Error} (h : finish object path supplied = .error error) :
    error.IsRejectionAt path ∨ ∃ args refusal, object.construct args = .error refusal ∧
      error = .construction object.name refusal := by
  rw [finish] at h
  split at h
  · rcases bind_eq_error_iff.mp h with hArrange | ⟨args, _, h⟩
    · exact .inl (arrange_error hArrange)
    · split at h
      · cases h
      · next refusal hRefused =>
        cases h
        exact .inr ⟨args, refusal, hRefused, rfl⟩
  · exact .inl (reject_error h)

/-- An object with these values under the keys of its members. -/
theorem evalObject_eq_ok_iff {object : ObjectSchema Evaluator}
    (hDistinct : (object.fields.map (·.name)).Nodup) (path : Path)
    (members : List (String × Json)) (result : Value) :
    evalObject object path (.object members) = .ok result ↔
      ∃ values, List.Forall₂ (fun member value => ∃ field ∈ object.fields, field.name = member.1 ∧
          field.schema (path.child (.field member.1)) member.2 = .ok value) members values ∧
        (∀ field ∈ object.fields, field.required = true → field.name ∈ Entries.keys members) ∧
        object.GapFree (Entries.keys members) ∧
        object.construct
          (object.arguments (Entries.ofPairs ((Entries.keys members).zip values))) = .ok result := by
  simp only [evalObject_members, bind_eq_ok_iff, evalMembers_eq_ok_iff, finish_eq_ok_iff hDistinct,
    findField?_eq_some_iff hDistinct, and_assoc]
  constructor
  · intro h
    obtain ⟨_, ⟨values, hValues, rfl⟩, hRequired, hGap, hResult⟩ := h
    refine ⟨values, hValues, fun field hm hField => ?_, ?_, hResult⟩
    · exact (Entries.mem_keys_ofPairs_zip hValues.length_eq _).mp (hRequired field hm hField)
    · exact (object.gapFree_congr (Entries.mem_keys_ofPairs_zip hValues.length_eq)).mp hGap
  · intro h
    obtain ⟨values, hValues, hRequired, hGap, hResult⟩ := h
    refine ⟨_, ⟨values, hValues, rfl⟩, fun field hm hField => ?_, ?_, hResult⟩
    · exact (Entries.mem_keys_ofPairs_zip hValues.length_eq _).mpr (hRequired field hm hField)
    · exact (object.gapFree_congr (Entries.mem_keys_ofPairs_zip hValues.length_eq)).mpr hGap

/-- An object fails by itself, by its constructor, or where one of its members does. -/
theorem evalObject_error {object : ObjectSchema Evaluator} {path : Path} {value : Json}
    {error : Error} (h : evalObject object path value = .error error) :
    error.IsRejectionAt path ∨
      (∃ args refusal, object.construct args = .error refusal ∧
        error = .construction object.name refusal) ∨
      ∃ members, value = .object members ∧ ∃ member ∈ members, ∃ field,
        findField? object.fields member.1 = some field ∧
          field.schema (path.child (.field member.1)) member.2 = .error error := by
  cases value with
  | object members =>
      rw [evalObject_members] at h
      rcases bind_eq_error_iff.mp h with hMembers | ⟨supplied, _, hFinish⟩
      · rcases evalMembers_error hMembers with hOwn | hMember
        · exact .inl hOwn
        · exact .inr (.inr ⟨members, rfl, hMember⟩)
      · exact (finish_error hFinish).imp_right .inl
  | _ => exact .inl (reject_error h)

/-- The same for object schemas, which is what the relations on schemas are compared with. -/
theorem evalAt_object_eq_ok_iff {object : ObjectSchema Schema} (hDistinct : object.DistinctNames)
    (path : Path) (members : List (String × Json)) (result : Value) :
    evalAt (.object object) path (.object members) = .ok result ↔
      ∃ values, List.Forall₂ (fun member value => ∃ field ∈ object.fields, field.name = member.1 ∧
          evalAt field.schema (path.child (.field member.1)) member.2 = .ok value) members values ∧
        (∀ field ∈ object.fields, field.required = true → field.name ∈ Entries.keys members) ∧
        object.GapFree (Entries.keys members) ∧
        object.construct
          (object.arguments (Entries.ofPairs ((Entries.keys members).zip values))) = .ok result := by
  have hNames : ((object.map evalAt).fields.map (·.name)).Nodup := by
    rw [ObjectSchema.map, List.map_map]
    exact hDistinct
  rw [evalAt_object, evalObject_eq_ok_iff hNames]
  simp only [ObjectSchema.gapFree_map, ObjectSchema.arguments_map]
  simp only [ObjectSchema.map, List.mem_map, Field.map, exists_exists_and_eq_and,
    forall_exists_index, and_imp, forall_apply_eq_imp_iff₂]

/-- Nothing but an object is built by an object schema. -/
theorem value_of_evalAt_object {object : ObjectSchema Schema} {path : Path} {value : Json}
    {result : Value} (h : evalAt (.object object) path value = .ok result) :
    ∃ members, value = .object members := by
  rw [evalAt_object] at h
  cases value with
  | object members => exact ⟨members, rfl⟩
  | _ => cases h

/-- Only constructors of objects inside the schema cause errors that a union
does not get over. -/
theorem evalAt_error {condition : ObjectSchema Schema → Prop} {schema : Schema}
    (h : schema.Everywhere condition) {path : Path} {value : Json} {error : Error}
    (hError : evalAt schema path value = .error error) :
    error.IsMild ∨ ∃ object args refusal, condition object ∧
      object.construct args = .error refusal ∧ error = .construction object.name refusal := by
  induction h generalizing path value with
  | undefined type =>
      cases hError
      exact .inl (.inr ⟨_, rfl⟩)
  | primitive kind =>
      rw [evalAt] at hError
      exact .inl (evalScalar_error hError).mild
  | sequence _ ih =>
      cases value with
      | array items =>
          rw [evalAt] at hError
          rcases bind_eq_error_iff.mp hError with hEach | ⟨values, _, hPure⟩
          · obtain ⟨position, item, _, hItem⟩ := evalEach_error hEach
            exact ih hItem
          · cases hPure
      | _ => exact .inl (reject_error hError).mild
  | tuple _ ih =>
      cases value with
      | array items =>
          rw [evalAt] at hError
          split at hError
          · rcases bind_eq_error_iff.mp hError with hItems | ⟨values, _, hPure⟩
            · obtain ⟨position, item, value, hItem, _, hValue⟩ := evalItems_error hItems
              exact ih item (List.mem_of_getElem? hItem) hValue
            · cases hPure
          · exact .inl (reject_error hError).mild
      | _ => exact .inl (reject_error hError).mild
  | mapping _ _ =>
      cases hError
      exact .inl (.inr ⟨_, rfl⟩)
  | @union options _ ih =>
      by_cases hNull : value = .null ∧ none ∈ options
      · obtain ⟨rfl, hNone⟩ := hNull
        rw [evalAt_union_null hNone] at hError
        cases hError
      · rw [evalAt_union_of_not_null hNull] at hError
        rcases bind_eq_error_iff.mp hError with hOptions | ⟨trial, _, hConclude⟩
        · obtain ⟨option, hm, hOption, _⟩ := evalOptions_error hOptions
          exact ih option hm hOption
        · exact .inl (concludeUnion_mild hConclude)
  | literal options =>
      rw [evalAt] at hError
      exact .inl (evalLiteral_error hError).mild
  | @object object hObject _ ih =>
      rw [evalAt_object] at hError
      rcases evalObject_error hError with hOwn | ⟨args, refusal, hRefused, rfl⟩ | hMember
      · exact .inl hOwn.mild
      · exact .inr ⟨object, args, refusal, hObject, hRefused, rfl⟩
      · obtain ⟨members, _, member, _, _, hFind, hItem⟩ := hMember
        obtain ⟨field, hField, rfl⟩ := List.mem_map.mp (List.mem_of_find?_eq_some hFind)
        exact ih field hField hItem

/-- There are only two ways to fail: one after which a union goes on, and one that ends it. -/
theorem evalAt_error_mild_or_construction {schema : Schema} {path : Path} {value : Json}
    {error : Error} (h : evalAt schema path value = .error error) :
    error.IsMild ∨ error.IsConstruction := by
  rcases evalAt_error (everywhere_of_forall schema fun _ => trivial) h with
    hMild | ⟨object, _, refusal, _, _, rfl⟩
  · exact .inl hMild
  · exact .inr ⟨object.name, refusal, rfl⟩

/-- If no constructor refuses anything, a union can always go on. -/
theorem evalAt_error_of_total {schema : Schema} (h : schema.Everywhere ObjectSchema.Total)
    {path : Path} {value : Json} {error : Error} (hError : evalAt schema path value = .error error) :
    error.IsMild := by
  rcases evalAt_error h hError with hMild | ⟨object, args, refusal, hTotal, hRefused, _⟩
  · exact hMild
  · obtain ⟨result, hResult⟩ := hTotal args
    rw [hRefused] at hResult
    cases hResult

end Schema

end ToolSchema
