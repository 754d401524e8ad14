import ToolSchema.Proofs.Callable.Record
import ToolSchema.Proofs.Schema.Widening

/-! Rendering a built value as JSON and evaluating it again builds the same
value, and every union takes the same alternative. -/
namespace ToolSchema

namespace Value

/-- Rendering the items of a list is an ordinary map, and so is rendering the fields of a record. -/
theorem toJsonItems_eq_map (items : List Value) : toJsonItems items = items.map toJson := by
  induction items with
  | nil => rfl
  | cons item more ih => exact congrArg _ ih

theorem toJsonFields_eq_map (fields : List (String × Value)) :
    toJsonFields fields = fields.map fun field => (field.1, field.2.toJson) := by
  induction fields with
  | nil => rfl
  | cons field more ih => exact congrArg _ ih

end Value

/-- The alternatives that unions take at the places of a value. -/
inductive Choice
  /-- There is nothing to choose. -/
  | leaf
  /-- The absent value of a union that has it. -/
  | absent
  /-- The alternative at this position, with the choices below it. -/
  | option (index : Nat) (below : Choice)
  | items (below : List Choice)
  /-- The fields that are given, in the order of the schema. -/
  | fields (below : List (String × Choice))

namespace Schema

open Json (Widened)

mutual

/-- The alternatives that evaluation takes. -/
def choice : Schema → Json → Choice
  | .sequence _ item, .array items => .items (items.map fun value => choice item value)
  | .tuple _ schemas, .array items => .items (itemChoices schemas items)
  | .union options, value =>
    match value, isOptional options with
    | .null, true => .absent
    | value, _ => optionChoice 0 options value
  | .object ⟨_, _, _, _, fields⟩, .object members => .fields (fieldChoices fields members)
  | _, _ => .leaf

def itemChoices : List Schema → List Json → List Choice
  | schema :: schemas, item :: items => choice schema item :: itemChoices schemas items
  | _, _ => []

/-- The first alternative that succeeds. -/
def optionChoice (index : Nat) : List (Option Schema) → Json → Choice
  | [], _ => .leaf
  | none :: more, value => optionChoice (index + 1) more value
  | some schema :: more, value =>
    match evalAt schema [] value with
    | .ok _ => .option index (choice schema value)
    | .error _ => optionChoice (index + 1) more value

def fieldChoices : List (Field Schema) → List (String × Json) → List (String × Choice)
  | [], _ => []
  | ⟨name, schema, _, _⟩ :: more, members =>
    match Entries.get? members name with
    | some item => (name, choice schema item) :: fieldChoices more members
    | none => fieldChoices more members

end

/-- The alternative that is taken is the first that succeeds, counted from the start of the
union. -/
theorem optionChoice_append {before after : List (Option Schema)} {schema : Schema} {value : Json}
    {result : Value} (hBefore : ∀ earlier, some earlier ∈ before →
      ∃ error, evalAt earlier [] value = .error error)
    (h : evalAt schema [] value = .ok result) (index : Nat) :
    optionChoice index (before ++ some schema :: after) value =
      .option (index + before.length) (choice schema value) := by
  induction before generalizing index with
  | nil =>
      rw [List.nil_append, optionChoice, h]
      rfl
  | cons option more ih =>
      have hMore := ih (fun earlier hm => hBefore earlier (List.mem_cons_of_mem _ hm)) (index + 1)
      rw [List.length_cons, Nat.add_comm more.length, ← Nat.add_assoc, ← hMore, List.cons_append]
      cases option with
      | none => rw [optionChoice]
      | some earlier =>
          obtain ⟨error, hError⟩ := hBefore earlier List.mem_cons_self
          rw [optionChoice, hError]

/-- Except for the absent value, the choice is among the alternatives that are evaluated. -/
theorem choice_union_of_not_null {options : List (Option Schema)} {value : Json}
    (h : ¬ (value = .null ∧ none ∈ options)) :
    choice (.union options) value = optionChoice 0 options value := by
  rw [choice]
  rintro rfl hOptional
  exact h ⟨rfl, (isOptional_iff options).mp hOptional⟩

/-- A union takes the alternative whose value it returns. -/
theorem choice_union {options : List (Option Schema)} {value : Json} {result : Value}
    (hOptions : ∀ schema, some schema ∈ options →
      schema.Everywhere fun object => object.DistinctNames ∧ object.Total)
    (hNull : ¬ (value = .null ∧ none ∈ options)) {before after : List (Option Schema)}
    {schema : Schema} (hSplit : options = before ++ some schema :: after)
    (hBefore : ∀ earlier, some earlier ∈ before → ¬ Fits earlier value)
    (h : Conforms schema value result) :
    choice (.union options) value = .option before.length (choice schema value) := by
  subst hSplit
  have hEarlier (earlier : Schema) (hm : some earlier ∈ before) :
      ∃ error, evalAt earlier [] value = .error error := by
    have hTotal := hOptions earlier (List.mem_append_left _ hm)
    obtain ⟨error, hError, -⟩ :=
      (not_fits_iff hTotal (evalAt_eq_ok_iff_conforms hTotal [] value)).mp (hBefore earlier hm)
    exact ⟨error, hError⟩
  have hResult := (evalAt_eq_ok_iff_conforms (hOptions schema (by simp)) [] value result).mpr h
  rw [choice_union_of_not_null hNull, optionChoice_append hEarlier hResult, Nat.zero_add]

/-! Objects -/

/-- What the members of an object supply to the fields. -/
structure Supplies (object : ObjectSchema Schema) (members : List (String × Json))
    (supplied : Entries Value) : Prop where
  known : ∀ key ∈ supplied.keys, key ∈ object.fields.map (·.name)
  keys : ∀ key, key ∈ supplied.keys ↔ key ∈ Entries.keys members
  conforms : ∀ key value, supplied.get? key = some value → ∃ item,
    Entries.get? members key = some item ∧
      ∃ field ∈ object.fields, field.name = key ∧ Conforms field.schema item value
  required : ∀ field ∈ object.fields, field.required = true → field.name ∈ supplied.keys
  gapFree : object.GapFree supplied.keys

/-- The constructor of records gets the supplied values in the order of the
fields. -/
theorem construct_arguments {object : ObjectSchema Schema} (h : object.BuildsRecord) :
    ∃ name, ∀ supplied : Entries Value, object.GapFree supplied.keys →
      object.construct (object.arguments supplied) =
        .ok (.record name (supplied.select (object.fields.map (·.name)))) := by
  obtain ⟨name, hConstruct⟩ := h.construct
  obtain ⟨named, hNames⟩ := h.leading
  refine ⟨name, fun supplied hGapFree => ?_⟩
  have hDistinct : (object.positionalOnly ++ named).Nodup := hNames ▸ h.distinct
  rw [hConstruct, arguments_eq hNames.symm h.distinct, ← hNames,
    ← recordFields_eq_select hDistinct (hGapFree.positional hNames.symm)]
  rfl

/-- Conformance of an object gives what its members supply and the arguments that the constructor
gets. -/
theorem supplies_of_conforms {object : ObjectSchema Schema} (hObject : object.BuildsRecord)
    {members : List (String × Json)} (hKeys : (Entries.keys members).Nodup) {result : Value}
    (h : Conforms (.object object) (.object members) result) :
    ∃ supplied, Supplies object members supplied ∧
      object.construct (object.arguments supplied) = .ok result := by
  obtain ⟨values, hValues, hRequired, hGapFree, hResult⟩ :=
    (conforms_object_iff hObject.distinct).mp h
  have hSame := Entries.mem_keys_ofPairs_zip hValues.length_eq
  refine ⟨_, ⟨fun key hm => ?_, hSame, fun key value hGet => ?_,
    fun field hm hField => (hSame _).mpr (hRequired field hm hField),
    (object.gapFree_congr hSame).mpr hGapFree⟩, hResult⟩
  · obtain ⟨member, hMember, rfl⟩ := List.mem_map.mp ((hSame key).mp hm)
    obtain ⟨_, _, field, hField, hName, _⟩ := hValues.exists_right hMember
    exact hName ▸ List.mem_map_of_mem hField
  · obtain ⟨item, hItem, hField⟩ := Entries.get?_ofPairs_zip hValues hGet
    rw [Entries.ofPairs_of_nodup hKeys] at hItem
    exact ⟨item, hItem, hField⟩

/-- A field of a record is rendered under its name. -/
theorem get?_toJsonFields (fields : Entries Value) (key : String) :
    Entries.get? (Value.toJsonFields fields) key = (fields.get? key).map Value.toJson := by
  induction fields with
  | nil => rfl
  | cons field more ih =>
      rw [Value.toJsonFields, Entries.get?_cons, Entries.get?_cons, ih]
      split <;> rfl

theorem keys_toJsonFields (fields : Entries Value) :
    Entries.keys (Value.toJsonFields fields) = fields.keys := by
  rw [Value.toJsonFields_eq_map, Entries.keys, List.map_map]
  rfl

namespace Supplies

variable {object : ObjectSchema Schema} {members : List (String × Json)} {supplied : Entries Value}

/-- The supplied values in the order of the fields. -/
abbrev ordered (object : ObjectSchema Schema) (supplied : Entries Value) : Entries Value :=
  supplied.select (object.fields.map (·.name))

/-- Arranging the supplied values changes their order, not what a name finds. -/
theorem get?_ordered (h : Supplies object members supplied) (hDistinct : object.DistinctNames)
    (key : String) : (ordered object supplied).get? key = supplied.get? key := by
  by_cases hKey : key ∈ object.fields.map (·.name)
  · exact Entries.get?_select _ hDistinct hKey
  · have hAbsent : key ∉ (ordered object supplied).keys := by
      rw [Entries.keys_select]
      exact fun hm => hKey (List.mem_filter.mp hm).1
    rw [(Entries.get?_eq_none_iff _ _).mpr hAbsent,
      (Entries.get?_eq_none_iff _ _).mpr fun hm => hKey (h.known key hm)]

/-- All that is supplied belongs to a field, so nothing is lost by the arrangement. -/
theorem mem_keys_ordered (h : Supplies object members supplied) (key : String) :
    key ∈ (ordered object supplied).keys ↔ key ∈ supplied.keys := by
  rw [Entries.keys_select, List.mem_filter, decide_eq_true_eq]
  exact ⟨And.right, fun hm => ⟨h.known key hm, hm⟩⟩

theorem nodup_keys_ordered (hDistinct : object.DistinctNames) (supplied : Entries Value) :
    (ordered object supplied).keys.Nodup := by
  rw [Entries.keys_select]
  exact hDistinct.sublist List.filter_sublist

/-- The constructor gets the same arguments from the values in the order of the fields. -/
theorem arguments_ordered (h : Supplies object members supplied) (hDistinct : object.DistinctNames) :
    object.arguments (ordered object supplied) = object.arguments supplied := by
  simp only [ObjectSchema.arguments, h.get?_ordered hDistinct]

/-- The rendered record is the object as it was given, except for the order of
its members and what becomes of them. -/
theorem widened (h : Supplies object members supplied) (hObject : object.BuildsRecord)
    (hKeys : (Entries.keys members).Nodup)
    (hItems : ∀ field ∈ object.fields, ∀ item value, (field.name, item) ∈ members →
      Conforms field.schema item value → Widened item value.toJson) :
    Widened (.object members) (.object (Value.toJsonFields (ordered object supplied))) := by
  refine .object (fun key => ?_) fun key item item' hm hm' => ?_
  · rw [keys_toJsonFields, h.mem_keys_ordered, h.keys]
  · have hNodup : (Entries.keys (Value.toJsonFields (ordered object supplied))).Nodup := by
      rw [keys_toJsonFields]
      exact nodup_keys_ordered hObject.distinct supplied
    have hGet := (Entries.get?_eq_some_iff hNodup _ _).mpr hm'
    rw [get?_toJsonFields, h.get?_ordered hObject.distinct, Option.map_eq_some_iff] at hGet
    obtain ⟨value, hValue, rfl⟩ := hGet
    obtain ⟨given, hGiven, field, hField, rfl, hConforms⟩ := h.conforms key value hValue
    rw [(Entries.get?_eq_some_iff hKeys _ _).mpr hm] at hGiven
    cases hGiven
    exact hItems field hField item value hm hConforms

end Supplies

/-! Rendering and evaluating again, for each kind of schema -/

/-- What is built from a value is built again from its JSON form. -/
structure Replayed (schema : Schema) (value : Json) (result : Value) : Prop where
  widened : Widened value result.toJson
  conforms : Conforms schema result.toJson result
  choice : schema.choice result.toJson = schema.choice value

/-- Scalars come back as they are, and an integer that became a float comes
back as this float. -/
theorem primitive_replayed {kind : Scalar} {value : Json} {result : Value}
    (hFormed : value.WellFormed) (h : Conforms (.primitive kind) value result) :
    Replayed (.primitive kind) value result := by
  cases h with
  | bool b => exact ⟨.same _, .bool b, rfl⟩
  | str text => exact ⟨.same _, .str text, rfl⟩
  | int n => exact ⟨.same _, .int n, rfl⟩
  | float x =>
      cases hFormed with
      | float hFinite =>
        have hJson : (Value.float x).toJson = .float x := if_pos hFinite
        exact ⟨hJson ▸ .same _, hJson ▸ .float x, by rw [hJson]⟩
  | floatOfInt n =>
      cases hFormed with
      | int hLow hHigh =>
        have hFinite : (Binary64.ofInt n).isFinite = true :=
          @Binary64.isFinite_ofInt n 64 (by decide) (by omega)
        have hJson : (Value.float (Binary64.ofInt n)).toJson = .float (Binary64.ofInt n) :=
          if_pos hFinite
        exact ⟨hJson ▸ .float n, hJson ▸ .float _, by rw [hJson]; rfl⟩

/-- A list is replayed item by item. Its items share a schema, so their number does not matter. -/
theorem sequence_replayed {origin : Origin} {item : Schema} {items : List Json}
    {results : List Value} (h : List.Forall₂ (Replayed item) items results) :
    Replayed (.sequence origin item) (.array items)
      (if origin = .tuple then .tuple results else .list results) := by
  have hJson : (if origin = .tuple then Value.tuple results else .list results).toJson =
      .array (results.map Value.toJson) := by
    rw [← Value.toJsonItems_eq_map]
    split <;> rfl
  have hWidened : List.Forall₂ Widened items (results.map Value.toJson) :=
    List.forall₂_map_right_iff.mpr (h.imp fun _ _ hItem => hItem.widened)
  have hConforms : List.Forall₂ (Conforms item) (results.map Value.toJson) results :=
    List.forall₂_map_left_iff.mpr (List.forall₂_same.mpr fun result hm => by
      obtain ⟨_, _, hItem⟩ := h.exists_left hm
      exact hItem.conforms)
  have hChoices : items.map (choice item) = results.map (choice item ∘ Value.toJson) :=
    (h.imp fun _ _ hItem => hItem.choice.symm).map_eq
  refine ⟨?_, ?_, ?_⟩
  · rw [hJson]
    exact .array hWidened.length_eq fun _ _ => List.forall₂_zip hWidened
  · rw [hJson]
    exact conforms_sequence_iff.mpr ⟨results, hConforms, rfl⟩
  · rw [hJson, choice, choice, hChoices, List.map_map]

/-- The items of a tuple are replayed each by its own schema, and the choices below them stay. -/
theorem items_replayed {schemas : List Schema} {items : List Json} {results : List Value}
    (hLength : items.length = schemas.length)
    (h : List.Forall₂ (fun pair result => Replayed pair.1 pair.2 result) (schemas.zip items) results) :
    List.Forall₂ Widened items (results.map Value.toJson) ∧
      List.Forall₂ (fun pair result => Conforms pair.1 pair.2 result)
        (schemas.zip (results.map Value.toJson)) results ∧
      itemChoices schemas (results.map Value.toJson) = itemChoices schemas items := by
  induction schemas generalizing items results with
  | nil =>
      rw [List.length_nil, List.length_eq_zero_iff] at hLength
      subst hLength
      cases h
      exact ⟨.nil, .nil, rfl⟩
  | cons schema more ih =>
      cases items with
      | nil => cases hLength
      | cons item items =>
          cases h with
          | cons hHead hTail =>
            obtain ⟨hWidened, hConforms, hChoices⟩ := ih (Nat.succ.inj hLength) hTail
            refine ⟨.cons hHead.widened hWidened, .cons hHead.conforms hConforms, ?_⟩
            rw [List.map_cons, itemChoices, itemChoices, hHead.choice, hChoices]

theorem tuple_replayed {origin : Origin} {schemas : List Schema} {items : List Json}
    {results : List Value} (hLength : items.length = schemas.length)
    (h : List.Forall₂ (fun pair result => Replayed pair.1 pair.2 result) (schemas.zip items) results) :
    Replayed (.tuple origin schemas) (.array items) (.tuple results) := by
  obtain ⟨hWidened, hConforms, hChoices⟩ := items_replayed hLength h
  have hJson : (Value.tuple results).toJson = .array (results.map Value.toJson) := by
    rw [← Value.toJsonItems_eq_map]
    rfl
  refine ⟨?_, ?_, ?_⟩
  · rw [hJson]
    exact .array hWidened.length_eq fun _ _ => List.forall₂_zip hWidened
  · rw [hJson]
    exact conforms_tuple_iff.mpr
      ⟨hWidened.length_eq.symm.trans hLength, results, hConforms, rfl⟩
  · rw [hJson, choice, choice, hChoices]

/-- The earlier alternatives reject the rendered value as well, since it is
the value after widening. -/
theorem union_replayed {options before after : List (Option Schema)} {schema : Schema}
    {value : Json} {result : Value}
    (hOptions : ∀ option, some option ∈ options → option.Replayable)
    (hSplit : options = before ++ some schema :: after)
    (hNull : ¬ (value = .null ∧ none ∈ options))
    (hBefore : ∀ earlier, some earlier ∈ before → ¬ Fits earlier value)
    (hConforms : Conforms schema value result) (h : Replayed schema value result) :
    Replayed (.union options) value result := by
  have hNull' : ¬ (result.toJson = .null ∧ none ∈ options) := by
    rwa [← Json.widened_null_iff h.widened]
  have hBefore' : ∀ earlier, some earlier ∈ before → ¬ Fits earlier result.toJson := by
    intro earlier hm hFits
    have hEarlier : earlier.Replayable := hOptions earlier (hSplit ▸ List.mem_append_left _ hm)
    exact hBefore earlier hm (hFits.of_widened hEarlier h.widened)
  have hEverywhere := fun option hm => (hOptions option hm).everywhere
  refine ⟨h.widened, .union hSplit hNull' hBefore' h.conforms, ?_⟩
  rw [choice_union hEverywhere hNull' hSplit hBefore' h.conforms,
    choice_union hEverywhere hNull hSplit hBefore hConforms, h.choice]

/-- Texts and Booleans are rendered as what they were compared with. Numbers need not be, since an
integer is also equal to a float. -/
theorem literal_replayed {options : List Constant} {value : Json} {result : Value}
    (hOptions : ∀ option ∈ options, option.isExact = true)
    (h : Conforms (.literal options) value result) : Replayed (.literal options) value result := by
  have hSame : value = result.toJson := by
    cases h with
    | @literal _ before after _ constant hSplit hBefore hAccepts =>
      have hm : constant ∈ options := by simp [hSplit]
      exact (Constant.accepts_iff_of_isExact (hOptions constant hm) value).mp hAccepts
  exact ⟨hSame ▸ .same _, hSame ▸ h, hSame ▸ rfl⟩

/-- The choices below an object are those of the members that belong to its fields. -/
theorem fieldChoices_congr {fields : List (Field Schema)} {members members' : List (String × Json)}
    (h : ∀ field ∈ fields, (Entries.get? members' field.name).map (choice field.schema) =
      (Entries.get? members field.name).map (choice field.schema)) :
    fieldChoices fields members' = fieldChoices fields members := by
  induction fields with
  | nil => rfl
  | cons field more ih =>
      rw [List.forall_mem_cons] at h
      have hMore := ih h.2
      have hField := h.1
      rw [fieldChoices, fieldChoices, hMore]
      cases hGet : Entries.get? members field.name with
      | none =>
          rw [hGet, Option.map_none, Option.map_eq_none_iff] at hField
          rw [hField]
      | some item =>
          rw [hGet, Option.map_some, Option.map_eq_some_iff] at hField
          obtain ⟨item', hItem', hSame⟩ := hField
          rw [hItem']
          exact congrArg (fun choice => (field.name, choice) :: _) hSame

/-- The rendered record conforms to the object and builds the record again. -/
theorem Supplies.conforms_ordered {object : ObjectSchema Schema} (hObject : object.BuildsRecord)
    {members : List (String × Json)} {supplied : Entries Value}
    (h : Supplies object members supplied) {result : Value}
    (hResult : object.construct (object.arguments supplied) = .ok result)
    (hItems : ∀ field ∈ object.fields, ∀ value, supplied.get? field.name = some value →
      Conforms field.schema value.toJson value) :
    Conforms (.object object) (.object (Value.toJsonFields (ordered object supplied))) result := by
  have hDistinct := hObject.distinct
  have hKeys := h.mem_keys_ordered
  have hEntries : List.Forall₂ (fun member value => ∃ field ∈ object.fields, field.name = member.1 ∧
      Conforms field.schema member.2 value) (Value.toJsonFields (ordered object supplied))
        ((ordered object supplied).map (·.2)) := by
    rw [Value.toJsonFields_eq_map, List.forall₂_map_left_iff, List.forall₂_map_right_iff,
      List.forall₂_same]
    rintro ⟨key, value⟩ hm
    have hGet := (Entries.get?_eq_some_iff (nodup_keys_ordered hDistinct supplied) _ _).mpr hm
    rw [h.get?_ordered hDistinct] at hGet
    obtain ⟨_, _, field, hField, rfl, _⟩ := h.conforms key value hGet
    exact ⟨field, hField, rfl, hItems field hField value hGet⟩
  have hZip : (Entries.keys (ordered object supplied)).zip ((ordered object supplied).map (·.2)) =
      ordered object supplied := by
    rw [Entries.keys, List.zip_map', List.map_id']
  refine (conforms_object_iff hDistinct).mpr ⟨_, hEntries, ?_⟩
  rw [keys_toJsonFields, hZip, Entries.ofPairs_of_nodup (nodup_keys_ordered hDistinct supplied),
    h.arguments_ordered hDistinct]
  exact ⟨fun field hField hRequired => (hKeys _).mpr (h.required field hField hRequired),
    (object.gapFree_congr hKeys).mpr h.gapFree, hResult⟩

/-- The choices below the rendered record are those below the members it was built from. -/
theorem Supplies.choice_ordered {object : ObjectSchema Schema} (hObject : object.BuildsRecord)
    {members : List (String × Json)} {supplied : Entries Value}
    (h : Supplies object members supplied)
    (hItems : ∀ field ∈ object.fields, ∀ value, supplied.get? field.name = some value → ∃ item,
      Entries.get? members field.name = some item ∧
        field.schema.choice value.toJson = field.schema.choice item) :
    choice (.object object) (.object (Value.toJsonFields (ordered object supplied))) =
      choice (.object object) (.object members) := by
  refine congrArg Choice.fields (fieldChoices_congr fun field hField => ?_)
  rw [get?_toJsonFields, h.get?_ordered hObject.distinct]
  cases hGet : supplied.get? field.name with
  | some value =>
      obtain ⟨item, hItem, hChoice⟩ := hItems field hField value hGet
      rw [hItem]
      exact congrArg some hChoice
  | none =>
      rw [Entries.get?_eq_none_iff, h.keys, ← Entries.get?_eq_none_iff] at hGet
      rw [hGet]
      rfl

/-- A record is rendered with its fields in order, and the members it was built from may have had
another order. -/
theorem object_replayed {object : ObjectSchema Schema} (hObject : object.BuildsRecord)
    {members : List (String × Json)} (hKeys : (Entries.keys members).Nodup) {result : Value}
    (h : Conforms (.object object) (.object members) result)
    (hFields : ∀ field ∈ object.fields, ∀ item value, (field.name, item) ∈ members →
      Conforms field.schema item value → Replayed field.schema item value) :
    Replayed (.object object) (.object members) result := by
  obtain ⟨supplied, hSupplied, hResult⟩ := supplies_of_conforms hObject hKeys h
  obtain ⟨name, hConstruct⟩ := construct_arguments hObject
  have hRecord : result = .record name (Supplies.ordered object supplied) := by
    rw [hConstruct supplied hSupplied.gapFree] at hResult
    exact (Except.ok.inj hResult).symm
  have hJson : result.toJson = .object (Value.toJsonFields (Supplies.ordered object supplied)) := by
    rw [hRecord, Value.toJson]
  have hGiven (field : Field Schema) (hField : field ∈ object.fields) (value : Value)
      (hGet : supplied.get? field.name = some value) : ∃ item,
        Entries.get? members field.name = some item ∧ Replayed field.schema item value := by
    obtain ⟨item, hItem, other, hOther, hName, hConforms⟩ := hSupplied.conforms _ value hGet
    obtain rfl := List.inj_on_of_nodup_map hObject.distinct hOther hField hName
    exact ⟨item, hItem, hFields other hField item value (Entries.mem_of_get? hItem) hConforms⟩
  refine ⟨?_, ?_, ?_⟩
  · rw [hJson]
    exact hSupplied.widened hObject hKeys fun field hField item value hm hConforms =>
      (hFields field hField item value hm hConforms).widened
  · rw [hJson]
    refine hSupplied.conforms_ordered hObject hResult fun field hField value hGet => ?_
    obtain ⟨_, _, hReplayed⟩ := hGiven field hField value hGet
    exact hReplayed.conforms
  · rw [hJson]
    refine hSupplied.choice_ordered hObject fun field hField value hGet => ?_
    obtain ⟨item, hItem, hReplayed⟩ := hGiven field hField value hGet
    exact ⟨item, hItem, hReplayed.choice⟩

/-- By induction over the derivation that the value conforms: each schema gives the same result
again if the schemas below it do. -/
theorem Conforms.replayed {schema : Schema} (hSchema : schema.Replayable) {value : Json}
    (hFormed : value.WellFormed) {result : Value} (h : Conforms schema value result) :
    Replayed schema value result := by
  induction hSchema generalizing value result with
  | undefined type => cases h
  | primitive kind => exact primitive_replayed hFormed h
  | sequence _ ih =>
      cases h with
      | sequence hLength hItems =>
        cases hFormed with
        | array hAll =>
          refine sequence_replayed (List.forall₂_iff_zip.mpr ⟨hLength, ?_⟩)
          intro item result hm
          exact ih (hAll item (List.of_mem_zip hm).1) (hItems item result hm)
  | tuple _ ih =>
      cases h with
      | tuple hLength hResults hItems =>
        cases hFormed with
        | array hAll =>
          refine tuple_replayed hLength (List.forall₂_iff_zip.mpr ⟨hResults, ?_⟩)
          intro pair result hm
          have hPair := List.of_mem_zip (List.of_mem_zip hm).1
          exact ih pair.1 hPair.1 (hAll pair.2 hPair.2) (hItems pair result hm)
  | mapping _ _ => cases h
  | union hOptions ih =>
      cases h with
      | null hNull => exact ⟨.same _, .null hNull, rfl⟩
      | @union _ before after schema _ _ hSplit hNull hBefore hConforms =>
        exact union_replayed hOptions hSplit hNull hBefore hConforms
          (ih schema (by simp [hSplit]) hFormed hConforms)
  | literal hOptions => exact literal_replayed hOptions h
  | object hObject _ ih =>
      cases hFormed with
      | object hKeys hAll =>
        refine object_replayed hObject hKeys h fun field hField item value hm hConforms => ?_
        exact ih field hField (hAll _ hm) hConforms
      | _ => cases h

/-- What evaluation builds from a value, it builds again from the JSON form of
the result, with the same alternative of every union. -/
theorem eval_toJson {schema : Schema} (hSchema : schema.Replayable) {value : Json}
    (hFormed : value.WellFormed) {result : Value} (h : schema.eval value = .ok result) :
    schema.eval result.toJson = .ok result ∧ schema.choice result.toJson = schema.choice value := by
  have hDecides := evalAt_eq_ok_iff_conforms hSchema.everywhere []
  have hReplayed := Conforms.replayed hSchema hFormed ((hDecides value result).mp h)
  exact ⟨(hDecides result.toJson result).mpr hReplayed.conforms, hReplayed.choice⟩

/-- A float and a union of the absent value, a text and a float. -/
def box : Schema :=
  .object ⟨"Box", .record "Box" ["size"], none, ["size"],
    [⟨"size", .primitive .float, none, true⟩,
      ⟨"label", .union [none, some (.literal [.str "none"]), some (.primitive .float)], none, false⟩]⟩

/-- An integer is built into a float and comes back as one. The second alternative of the label
still rejects it, and the third is taken both times. -/
theorem box_evaluated_again : ∃ result,
    eval box (.object [("label", .int 3), ("size", .int 2)]) = .ok result ∧
      eval box result.toJson = .ok result ∧
      choice box result.toJson = .fields [("size", .leaf), ("label", .option 2 .leaf)] := by
  have hEval : eval box (.object [("label", .int 3), ("size", .int 2)]) = .ok (.record "Box"
      [("size", .float (Binary64.ofInt 2)), ("label", .float (Binary64.ofInt 3))]) := rfl
  refine ⟨_, hEval, eval_toJson ?_ ?_ hEval⟩
  · refine .object ⟨by unfold ObjectSchema.DistinctNames; decide, by decide, "Box", rfl⟩ ?_
    rintro field (_ | ⟨_, _ | ⟨_, ⟨⟩⟩⟩)
    · exact .primitive .float
    · refine .union ?_
      rintro option (_ | ⟨_, _ | ⟨_, _ | ⟨_, ⟨⟩⟩⟩⟩)
      · exact .literal (by decide)
      · exact .primitive .float
  · refine .object (by decide) ?_
    rintro member (_ | ⟨_, _ | ⟨_, ⟨⟩⟩⟩)
    · exact .int (by decide) (by decide)
    · exact .int (by decide) (by decide)

end Schema

end ToolSchema
