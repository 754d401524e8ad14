import ToolSchema.Proofs.Schema.Conformance
import ToolSchema.Proofs.Schema.Validator
import ToolSchema.Schema.Description

/-! Description against evaluation. The document that describes a schema admits the
values that evaluation accepts, apart from those that contain an absent value. -/
namespace ToolSchema

namespace Schema

open Except (bind_eq_ok_iff pure_eq_ok_iff)

/-! What describing a schema gives -/

/-- A union has the document of its only alternative that is not the absent
value, or its alternatives are scalars. -/
theorem describe_union {options : List (Option Schema)} {hint : Option String}
    {document : Document} (h : describe (.union options) hint = .ok document) :
    (∃ schema, (∀ option, some option ∈ options ↔ option = schema) ∧
        describe schema hint = .ok document) ∨
      (options.all isScalarOption = true ∧
        describeScalars (scalarKinds options) hint = .ok document) := by
  unfold describe at h
  split at h <;> rename_i he <;> cases he
  · exact .inl ⟨_, by simp, h⟩
  · exact .inl ⟨_, by simp, h⟩
  · exact .inl ⟨_, by simp, h⟩
  · split at h
    · next hScalars => exact .inr ⟨hScalars, h⟩
    · cases h

/-- The document of some scalars admits what one of its types admits, whether it lists one type or
several. -/
theorem describeScalars_ok {kinds : List Scalar} {hint : Option String} {document : Document}
    (h : describeScalars kinds hint = .ok document) (value : Json) :
    document.admits value = (typeNames kinds).any fun type => type.admits value := by
  unfold describeScalars at h
  split at h
  · cases h
  · next type hTypes =>
    cases h
    simp [hTypes, Document.admits, TypeChoice.admits]
  · next types _ _ =>
    cases h
    rfl

/-- The scalars of a union are those among its alternatives. -/
theorem mem_scalarKinds (options : List (Option Schema)) (kind : Scalar) :
    kind ∈ scalarKinds options ↔ some (.primitive kind) ∈ options := by
  rw [scalarKinds, List.mem_filterMap]
  constructor
  · intro h
    obtain ⟨option, hm, hKind⟩ := h
    split at hKind
    · cases hKind
      exact hm
    · cases hKind
  · intro hm
    exact ⟨_, hm, rfl⟩

theorem primitive_of_isScalarOption {schema : Schema} (h : isScalarOption (some schema) = true) :
    ∃ kind, schema = .primitive kind := by
  cases schema with
  | primitive kind => exact ⟨kind, rfl⟩
  | _ => cases h

/-- Types are collected once each, but none is lost. -/
theorem mem_foldl_append_new (names seen : List TypeName) (type : TypeName) :
    type ∈ names.foldl (fun seen name => if seen.contains name then seen else seen ++ [name]) seen ↔
      type ∈ seen ∨ type ∈ names := by
  induction names generalizing seen with
  | nil => simp
  | cons name more ih =>
      rw [List.foldl_cons, ih]
      by_cases hSeen : name ∈ seen
      · simp only [List.contains_eq_mem, hSeen, decide_true, if_true, List.mem_cons]
        constructor
        · intro h
          exact h.imp_right .inr
        · intro h
          rcases h with h | rfl | h
          · exact .inl h
          · exact .inl hSeen
          · exact .inr h
      · simp [hSeen, or_assoc]

/-- A document that lists both numbers and integers admits no more than one that lists numbers. -/
theorem admits_number_of_integer {value : Json} (h : TypeName.integer.admits value = true) :
    TypeName.number.admits value = true := by
  cases value with
  | int n => rfl
  | _ => cases h

/-- Leaving out integers beside numbers loses no value. -/
theorem typeNames_admit_iff (kinds : List Scalar) (value : Json) :
    ((typeNames kinds).any fun type => type.admits value) = true ↔
      ∃ kind ∈ kinds, kind.typeName.admits value = true := by
  have hAll : (∃ type ∈ (kinds.map Scalar.typeName).foldl (fun seen name =>
      if seen.contains name then seen else seen ++ [name]) [], type.admits value = true) ↔
      ∃ kind ∈ kinds, kind.typeName.admits value = true := by
    simp only [mem_foldl_append_new, List.not_mem_nil, false_or, List.mem_map,
      exists_exists_and_eq_and]
  rw [List.any_eq_true, ← hAll, typeNames]
  split
  · next hNumber =>
    rw [List.contains_eq_mem, decide_eq_true_eq] at hNumber
    constructor
    · intro h
      obtain ⟨type, hm, hAdmits⟩ := h
      exact ⟨type, (List.mem_filter.mp hm).1, hAdmits⟩
    · intro h
      obtain ⟨type, hm, hAdmits⟩ := h
      by_cases hInteger : type = .integer
      · subst hInteger
        exact ⟨.number, List.mem_filter.mpr ⟨hNumber, rfl⟩, admits_number_of_integer hAdmits⟩
      · exact ⟨type, List.mem_filter.mpr ⟨hm, by simpa using hInteger⟩, hAdmits⟩
  · rfl

/-- Only a literal of texts alone has a list of texts to show. -/
theorem eq_map_of_mapM_str? {options : List Constant} {texts : List String}
    (h : options.mapM Constant.str? = some texts) : options = texts.map .str := by
  induction options generalizing texts with
  | nil =>
      cases h
      rfl
  | cons option more ih =>
      rw [List.mapM_cons] at h
      obtain ⟨text, hText, h⟩ := Option.bind_eq_some_iff.mp h
      obtain ⟨rest, hRest, hPure⟩ := Option.bind_eq_some_iff.mp h
      cases hPure
      cases option <;> cases hText
      rw [ih hRest]
      rfl

/-- A literal with a document is one of texts, and the document shows these texts. -/
theorem describeLiteral_ok {options : List Constant} {hint : Option String} {document : Document}
    (h : describeLiteral options hint = .ok document) :
    ∃ texts, options = texts.map .str ∧ document = .enum .string texts (usableHint hint) := by
  unfold describeLiteral at h
  split at h
  · next texts hTexts =>
    cases h
    exact ⟨texts, eq_map_of_mapM_str? hTexts, rfl⟩
  · cases h

theorem forall_requiredNames {α : Type} {p : String → Prop} (fields : List (Field α)) :
    (∀ name ∈ requiredNames fields, p name) ↔
      ∀ field ∈ fields, field.required = true → p field.name := by
  simp only [requiredNames, List.forall_mem_map, List.mem_filter, and_imp]

/-- Properties stand in the order of the fields, each with the document of its field. -/
theorem describeFields_ok {name : String} {fields : List (Field Schema)}
    {properties : List (String × Document)} (h : describeFields name fields = .ok properties) :
    List.Forall₂ (fun field property => field.name = property.1 ∧
      describe field.schema field.hint = .ok property.2) fields properties := by
  induction fields generalizing properties with
  | nil =>
      cases h
      exact .nil
  | cons field more ih =>
      rw [describeFields] at h
      split at h
      · cases h
      · next document hDocument =>
        obtain ⟨rest, hRest, hPure⟩ := bind_eq_ok_iff.mp h
        cases hPure
        exact .cons ⟨rfl, hDocument⟩ (ih hRest)

end Schema

/-- A positional-only field may be left out only if no other positional-only
field follows. -/
def ObjectSchema.OptionalLast (object : ObjectSchema Schema) : Prop :=
  object.fields.Pairwise fun earlier later =>
    earlier.name ∈ object.positionalOnly → later.name ∈ object.positionalOnly →
      earlier.required = true

/-- If all required fields are given and the optional ones come last, there is no gap before a given
field. -/
theorem ObjectSchema.OptionalLast.gapFree {object : ObjectSchema Schema} (h : object.OptionalLast)
    {given : List String}
    (hRequired : ∀ field ∈ object.fields, field.required = true → field.name ∈ given) :
    object.GapFree given := by
  refine List.Pairwise.imp_of_mem ?_ h
  intro earlier later hm _ hEarlier hFirst hLater _
  exact hRequired earlier hm (hEarlier hFirst hLater)

namespace Schema

open Except (bind_eq_ok_iff pure_eq_ok_iff)

/-! Validity and conformance -/

/-- The type of a scalar admits what fits the scalar. Neither of them admits null. -/
theorem admits_typeName_iff (kind : Scalar) (value : Json) :
    kind.typeName.admits value = true ↔ Fits (.primitive kind) value ∧ value.nullFree = true := by
  constructor
  · intro h
    cases kind with
    | int =>
        cases value with
        | int n =>
            obtain ⟨m, hInt⟩ := Option.isSome_iff_exists.mp h
            rw [int64?_eq_some_iff] at hInt
            exact ⟨hInt ▸ .int m, rfl⟩
        | _ => cases h
    | float =>
        cases value with
        | int n => exact ⟨.floatOfInt n, rfl⟩
        | float x => exact ⟨.float x, rfl⟩
        | _ => cases h
    | str =>
        cases value with
        | str text => exact ⟨.str text, rfl⟩
        | _ => cases h
    | bool =>
        cases value with
        | bool b => exact ⟨.bool b, rfl⟩
        | _ => cases h
  · intro h
    obtain ⟨hFits, -⟩ := h
    cases hFits with
    | bool b => rfl
    | str text => rfl
    | int n => exact Option.isSome_iff_exists.mpr ⟨n, (int64?_eq_some_iff _ _).mpr rfl⟩
    | float x => rfl
    | floatOfInt n => rfl

/-- Apart from null, a union has the values of its alternatives. -/
theorem fits_union_iff {options : List (Option Schema)} {value : Json}
    (hNullFree : value.nullFree = true) :
    Fits (.union options) value ↔ ∃ schema, some schema ∈ options ∧ Fits schema value := by
  constructor
  · intro h
    cases h with
    | null _ => cases hNullFree
    | union hOption hFits => exact ⟨_, hOption, hFits⟩
  · intro h
    obtain ⟨schema, hOption, hFits⟩ := h
    exact .union hOption hFits

/-- A document that shows texts admits just these texts. -/
theorem admits_enum_iff (texts : List String) (description : Option String) (value : Json) :
    (Document.enum .string texts description).admits value = true ↔
      Fits (.literal (texts.map .str)) value ∧ value.nullFree = true := by
  constructor
  · intro h
    rw [Document.admits, Bool.and_eq_true, List.any_eq_true] at h
    obtain ⟨-, text, hm, hText⟩ := h
    cases value with
    | str found =>
        have he : found = text := by simpa [Json.str?] using hText
        subst he
        exact ⟨.literal (List.mem_map_of_mem hm) (by simp [Constant.accepts]), rfl⟩
    | _ => cases hText
  · intro h
    obtain ⟨hFits, -⟩ := h
    cases hFits with
    | literal hOption hAccepts =>
      obtain ⟨text, hm, rfl⟩ := List.mem_map.mp hOption
      cases value with
      | str found =>
          have he : text = found := by simpa [Constant.accepts] using hAccepts
          subst he
          simpa [Document.admits, TypeTag.admits, Json.str?] using hm
      | _ => cases hAccepts

/-- An array is admitted if its items are, and null is nowhere in it if it is in none of them. -/
theorem admits_array_iff {item : Schema} {document : Document}
    (hItem : ∀ value, document.admits value = true ↔ Fits item value ∧ value.nullFree = true)
    (origin : Origin) (description : Option String) (value : Json) :
    (Document.array .array document description).admits value = true ↔
      Fits (.sequence origin item) value ∧ value.nullFree = true := by
  cases value with
  | array values =>
      rw [Document.admits, Json.nullFree_array, TypeTag.admits, Bool.true_and, List.all_eq_true]
      constructor
      · intro h
        have hAll := fun value hm => (hItem value).mp (h value hm)
        exact ⟨.sequence fun value hm => (hAll value hm).1, fun value hm => (hAll value hm).2⟩
      · intro h value hm
        obtain ⟨hFits, hNullFree⟩ := h
        cases hFits with
        | sequence hItems => exact (hItem value).mpr ⟨hItems value hm, hNullFree value hm⟩
  | _ =>
      constructor
      · intro h
        cases h
      · intro h
        cases h.1

/-- An object is admitted if its members fit and all required fields are given. That there is no gap
follows, since the optional fields come last. -/
theorem admits_object_iff {object : ObjectSchema Schema} (hDistinct : object.DistinctNames)
    (hLast : object.OptionalLast) {properties : List (String × Document)}
    (hProperties : List.Forall₂ (fun field property => field.name = property.1 ∧
      ∀ value, property.2.admits value = true ↔ Fits field.schema value ∧ value.nullFree = true)
      object.fields properties) (description : Option String) (value : Json) :
    (Document.object ⟨.object, properties, requiredNames object.fields, description⟩).admits value =
        true ↔ Fits (.object object) value ∧ value.nullFree = true := by
  have hNames : object.fields.map (·.name) = Entries.keys properties :=
    (hProperties.imp fun _ _ h => h.1).map_eq
  have hKeys : (Entries.keys properties).Nodup := hNames ▸ hDistinct
  cases value with
  | object members =>
      simp only [Document.admits, TypeTag.admits, Bool.true_and, Bool.and_eq_true, List.all_eq_true,
        Document.admitsMember_eq_true_iff hKeys, Entries.hasKey_iff, Json.nullFree_object,
        forall_requiredNames]
      constructor
      · intro h
        obtain ⟨hMembers, hRequired⟩ := h
        have hAll : ∀ member ∈ members, ∃ field ∈ object.fields, field.name = member.1 ∧
            Fits field.schema member.2 ∧ member.2.nullFree = true := by
          intro member hm
          obtain ⟨property, hProperty, hName, hAdmits⟩ := hMembers member hm
          obtain ⟨field, hField, hSame, hIff⟩ := hProperties.exists_left hProperty
          exact ⟨field, hField, hSame.trans hName, (hIff member.2).mp hAdmits⟩
        refine ⟨.object (fun member hm => ?_) (fun member hm field hField hName => ?_) hRequired
          (hLast.gapFree hRequired), fun member hm => ?_⟩
        · obtain ⟨field, hField, hName, _⟩ := hAll member hm
          exact ⟨field, hField, hName⟩
        · obtain ⟨other, hOther, hSame, hFits, _⟩ := hAll member hm
          rwa [← List.inj_on_of_nodup_map hDistinct hOther hField (hSame.trans hName.symm)]
        · obtain ⟨_, _, _, _, hNullFree⟩ := hAll member hm
          exact hNullFree
      · intro h
        obtain ⟨hFits, hNullFree⟩ := h
        cases hFits with
        | object hKnown hItems hRequired _ =>
          refine ⟨fun member hm => ?_, hRequired⟩
          obtain ⟨field, hField, hName⟩ := hKnown member hm
          obtain ⟨property, hProperty, hSame, hIff⟩ := hProperties.exists_right hField
          exact ⟨property, hProperty, hSame.symm.trans hName,
            (hIff member.2).mpr ⟨hItems member hm field hField hName, hNullFree member hm⟩⟩
  | _ =>
      constructor
      · intro h
        cases h
      · intro h
        cases h.1

/-- The document of a schema admits the values that fit the schema and
contain no null. -/
theorem admits_iff_fits {schema : Schema}
    (h : schema.Everywhere fun object => object.DistinctNames ∧ object.OptionalLast)
    {hint : Option String} {document : Document}
    (hDescribe : describe schema hint = .ok document) (value : Json) :
    document.admits value = true ↔ Fits schema value ∧ value.nullFree = true := by
  induction h generalizing hint document value with
  | undefined type => cases hDescribe
  | primitive kind =>
      cases hDescribe
      exact admits_typeName_iff kind value
  | sequence _ ih =>
      rw [describe] at hDescribe
      obtain ⟨items, hItems, hPure⟩ := bind_eq_ok_iff.mp hDescribe
      cases hPure
      exact admits_array_iff (fun value => ih hItems value) _ _ value
  | tuple _ _ => cases hDescribe
  | mapping _ _ => cases hDescribe
  | @union options _ ih =>
      have hAlternatives : document.admits value = true ↔
          (∃ schema, some schema ∈ options ∧ Fits schema value) ∧ value.nullFree = true := by
        rcases describe_union hDescribe with ⟨schema, hOnly, hSchema⟩ | ⟨hScalars, hTypes⟩
        · rw [ih schema ((hOnly schema).mpr rfl) hSchema]
          simp only [hOnly, exists_eq_left]
        · rw [describeScalars_ok hTypes, typeNames_admit_iff]
          simp only [mem_scalarKinds, admits_typeName_iff]
          constructor
          · intro h
            obtain ⟨kind, hm, hFits, hNullFree⟩ := h
            exact ⟨⟨_, hm, hFits⟩, hNullFree⟩
          · intro h
            obtain ⟨⟨schema, hm, hFits⟩, hNullFree⟩ := h
            obtain ⟨kind, rfl⟩ := primitive_of_isScalarOption (List.all_eq_true.mp hScalars _ hm)
            exact ⟨kind, hm, hFits, hNullFree⟩
      rw [hAlternatives]
      exact and_congr_left fun hNullFree => (fits_union_iff hNullFree).symm
  | literal options =>
      rw [describe] at hDescribe
      obtain ⟨texts, rfl, rfl⟩ := describeLiteral_ok hDescribe
      exact admits_enum_iff texts _ value
  | @object object hObject _ ih =>
      rw [describe] at hDescribe
      obtain ⟨properties, hProperties, hPure⟩ := bind_eq_ok_iff.mp hDescribe
      cases hPure
      have hPairs := describeFields_ok hProperties
      have hNames : object.fields.map (·.name) = Entries.keys properties :=
        (hPairs.imp fun _ _ h => h.1).map_eq
      rw [Entries.ofPairs_of_nodup (hNames ▸ hObject.1)]
      refine admits_object_iff hObject.1 hObject.2 ?_ _ value
      rw [List.forall₂_iff_zip] at hPairs ⊢
      refine ⟨hPairs.1, fun {field property} hm => ?_⟩
      obtain ⟨hName, hSchema⟩ := hPairs.2 hm
      exact ⟨hName, fun value => ih field (List.of_mem_zip hm).1 hSchema value⟩

/-- Description and evaluation agree: the values that are valid against the
document of a schema are those that evaluation accepts, less those that contain
null. -/
theorem admits_iff_eval {schema : Schema}
    (h : schema.Everywhere fun object =>
      object.DistinctNames ∧ object.Total ∧ object.OptionalLast)
    {hint : Option String} {document : Document}
    (hDescribe : describe schema hint = .ok document) (value : Json) :
    document.admits value = true ↔
      (∃ result, eval schema value = .ok result) ∧ value.nullFree = true := by
  have hEval : Fits schema value ↔ ∃ result, eval schema value = .ok result := by
    have hTotal := h.imp fun object h => (⟨h.1, h.2.1⟩ : object.DistinctNames ∧ object.Total)
    rw [fits_iff_exists_conforms hTotal]
    exact exists_congr fun result => (evalAt_eq_ok_iff_conforms hTotal [] value result).symm
  rw [← hEval]
  exact admits_iff_fits (h.imp fun object h => ⟨h.1, h.2.2⟩) hDescribe value

/-- A record with an optional field, given in another order than that of the fields. -/
theorem record_admits :
    (Document.object ⟨.object,
        [("x", .leaf (.single .integer) none), ("label", .leaf (.single .string) none)], ["x"],
        none⟩).admits (.object [("label", .str "home"), ("x", .int 3)]) = true := by
  refine (@admits_iff_eval (.object ⟨"Point", .record "Point" ["x"], none, ["x"],
    [⟨"x", .primitive .int, none, true⟩,
      ⟨"label", .union [some (.primitive .str), none], none, false⟩]⟩) ?_ none _ rfl _).mpr
    ⟨⟨_, rfl⟩, rfl⟩
  refine .object ⟨?_, fun args => ⟨_, rfl⟩, ?_⟩ fun field hm => ?_
  · unfold ObjectSchema.DistinctNames
    decide
  · unfold ObjectSchema.OptionalLast
    decide
  · rcases List.mem_pair.mp hm with rfl | rfl
    · exact .primitive .int
    · refine .union fun option hOption => ?_
      rcases List.mem_pair.mp hOption with he | he
      · cases he
        exact .primitive .str
      · cases he

end Schema

end ToolSchema
