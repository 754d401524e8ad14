import Mathlib.Algebra.Group.Int.Defs
import ToolSchema.Proofs.Number.Rounding
import ToolSchema.Proofs.Schema.Conformance

/-! What is lost when a built value is rendered as JSON again: integers where a
float was expected come back as floats, and members come back in the order of
the fields. No schema accepts more after that than before. -/
namespace ToolSchema

/-- Integers fit in 64 bits with or without sign, floats are finite, and no key
occurs twice in an object. -/
inductive Json.WellFormed : Json → Prop
  | null : WellFormed .null
  | bool (value : Bool) : WellFormed (.bool value)
  | int {n : Int} (hLow : -2 ^ 63 ≤ n) (hHigh : n < 2 ^ 64) : WellFormed (.int n)
  | float {x : Binary64} (h : x.isFinite = true) : WellFormed (.float x)
  | str (text : String) : WellFormed (.str text)
  | array {items : List Json} (h : ∀ item ∈ items, WellFormed item) : WellFormed (.array items)
  | object {members : List (String × Json)} (hDistinct : (Entries.keys members).Nodup)
      (h : ∀ member ∈ members, WellFormed member.2) : WellFormed (.object members)

/-- The same value, except that integers may have become the nearest floats
and members may have changed places. -/
inductive Json.Widened : Json → Json → Prop
  | same (value : Json) : Widened value value
  | float (n : Int) : Widened (.int n) (.float (Binary64.ofInt n))
  | array {items items' : List Json} (hLength : items.length = items'.length)
      (hItems : ∀ item item', (item, item') ∈ items.zip items' → Widened item item') :
      Widened (.array items) (.array items')
  | object {members members' : List (String × Json)}
      (hKeys : ∀ key, key ∈ Entries.keys members ↔ key ∈ Entries.keys members')
      (hItems : ∀ key item item', (key, item) ∈ members → (key, item') ∈ members' →
        Widened item item') :
      Widened (.object members) (.object members')

open Json (Widened)

/-- Null stays null, and nothing else becomes null. -/
theorem Json.widened_null_iff {v w : Json} (h : Widened v w) : v = .null ↔ w = .null := by
  cases h with
  | same => exact Iff.rfl
  | float n => exact ⟨nofun, nofun⟩
  | array _ _ => exact ⟨nofun, nofun⟩
  | object _ _ => exact ⟨nofun, nofun⟩

/-! Texts and Booleans as constants -/

/-- Constants that are compared by equality. -/
def Constant.isExact : Constant → Bool
  | .bool _ | .str _ => true
  | .int _ | .float _ => false

/-- A text or a Boolean is equal to one value only, the one it is rendered as. -/
theorem Constant.accepts_iff_of_isExact {constant : Constant} (h : constant.isExact = true)
    (value : Json) : constant.accepts value = true ↔ value = constant.toValue.toJson := by
  cases constant with
  | bool b =>
      cases value with
      | bool a =>
          rw [accepts, toValue, Value.toJson, beq_iff_eq, Json.bool.injEq]
          exact eq_comm
      | _ => exact ⟨nofun, nofun⟩
  | str t =>
      cases value with
      | str s =>
          rw [accepts, toValue, Value.toJson, beq_iff_eq, Json.str.injEq]
          exact eq_comm
      | _ => exact ⟨nofun, nofun⟩
  | int _ => cases h
  | float _ => cases h

/-- Texts and Booleans are the same before and after widening. -/
theorem Json.Widened.eq_of_isExact {v w : Json} (h : Widened v w) {constant : Constant}
    (hExact : constant.isExact = true) (he : w = constant.toValue.toJson) : v = w := by
  cases h with
  | same => rfl
  | float n => cases constant <;> cases hExact <;> cases he
  | array _ _ => cases constant <;> cases hExact <;> cases he
  | object _ _ => cases constant <;> cases hExact <;> cases he

/-! Schemas that build plain data -/

/-- The fields have names of their own, the first of them are passed by
position, and the constructor makes a record of them. -/
structure ObjectSchema.BuildsRecord (object : ObjectSchema Schema) : Prop where
  distinct : object.DistinctNames
  leading : object.positionalOnly <+: object.fields.map (·.name)
  construct : ∃ name, object.construct = Constructor.record name object.positionalOnly

/-- Literals are texts and Booleans, and objects build records. -/
inductive Schema.Replayable : Schema → Prop
  | undefined (type : TypeExpr) : Replayable (.undefined type)
  | primitive (kind : Scalar) : Replayable (.primitive kind)
  | sequence {origin : Origin} {item : Schema} (hItem : Replayable item) :
      Replayable (.sequence origin item)
  | tuple {origin : Origin} {items : List Schema} (hItems : ∀ item ∈ items, Replayable item) :
      Replayable (.tuple origin items)
  | mapping {origin : Origin} {key value : Schema} (hKey : Replayable key)
      (hValue : Replayable value) : Replayable (.mapping origin key value)
  | union {options : List (Option Schema)}
      (hOptions : ∀ option, some option ∈ options → Replayable option) :
      Replayable (.union options)
  | literal {options : List Constant} (hOptions : ∀ option ∈ options, option.isExact = true) :
      Replayable (.literal options)
  | object {object : ObjectSchema Schema} (hObject : object.BuildsRecord)
      (hFields : ∀ field ∈ object.fields, Replayable field.schema) : Replayable (.object object)

/-- A record can be made of any arguments. -/
theorem ObjectSchema.BuildsRecord.total {object : ObjectSchema Schema} (h : object.BuildsRecord) :
    object.Total := by
  obtain ⟨name, hConstruct⟩ := h.construct
  intro args
  rw [hConstruct]
  exact ⟨_, rfl⟩

namespace Schema

/-- Schemas that build plain data meet the conditions for evaluation to implement conformance. -/
theorem Replayable.everywhere {schema : Schema} (h : schema.Replayable) :
    schema.Everywhere fun object => object.DistinctNames ∧ object.Total := by
  induction h with
  | undefined type => exact .undefined type
  | primitive kind => exact .primitive kind
  | sequence _ ih => exact .sequence ih
  | tuple _ ih => exact .tuple ih
  | mapping _ _ ihKey ihValue => exact .mapping ihKey ihValue
  | union _ ih => exact .union ih
  | literal _ => exact .literal _
  | object hObject _ ih => exact .object ⟨hObject.distinct, hObject.total⟩ ih

/-- Every member of an object is widened to one with the same key. -/
theorem exists_widened_member {members members' : List (String × Json)}
    (hKeys : ∀ key, key ∈ Entries.keys members ↔ key ∈ Entries.keys members')
    (hItems : ∀ key item item', (key, item) ∈ members → (key, item') ∈ members' →
      Widened item item')
    {member : String × Json} (hm : member ∈ members) :
    ∃ item', (member.1, item') ∈ members' ∧ Widened member.2 item' := by
  obtain ⟨other, hOther, hKey⟩ := List.mem_map.mp ((hKeys member.1).mp (Entries.mem_keys hm))
  exact ⟨other.2, hKey ▸ hOther, hItems _ _ _ hm (hKey ▸ hOther)⟩

/-- What a schema accepts after widening it accepted before. -/
theorem Fits.of_widened {schema : Schema} (hSchema : schema.Replayable) {v w : Json}
    (hFits : Fits schema w) (h : Widened v w) : Fits schema v := by
  induction hFits generalizing v with
  | bool b =>
      cases h
      exact .bool b
  | str text =>
      cases h
      exact .str text
  | int n =>
      cases h
      exact .int n
  | float x =>
      cases h with
      | same => exact .float x
      | float n => exact .floatOfInt n
  | floatOfInt n =>
      cases h
      exact .floatOfInt n
  | sequence hItems ih =>
      cases hSchema with
      | sequence hItem =>
        cases h with
        | same => exact .sequence hItems
        | array hLength hWidened =>
          refine .sequence fun item hm => ?_
          obtain ⟨item', hm', hPair⟩ :=
            (List.forall₂_iff_zip.mpr ⟨hLength, hWidened _ _⟩).exists_right hm
          exact ih item' hm' hItem hPair
  | @tuple _ schemas _ hLength hItems ih =>
      cases hSchema with
      | tuple hSchemas =>
        cases h with
        | same => exact .tuple hLength hItems
        | @array items _ hSame hWidened =>
          refine .tuple (hSame.trans hLength) fun schema item hm => ?_
          obtain ⟨item', hm', hPair⟩ :=
            (List.forall₂_iff_zip.mpr ⟨hSame, hWidened _ _⟩).exists_zip_right hm
          exact ih schema item' hm' (hSchemas schema (List.of_mem_zip hm).1) hPair
  | null hNull =>
      cases h
      exact .null hNull
  | union hOption _ ih =>
      cases hSchema with
      | union hOptions => exact .union hOption (ih (hOptions _ hOption) h)
  | literal hOption hAccepts =>
      cases hSchema with
      | literal hOptions =>
        refine .literal hOption ((Constant.accepts_iff_of_isExact (hOptions _ hOption) v).mpr ?_)
        rw [Constant.accepts_iff_of_isExact (hOptions _ hOption)] at hAccepts
        exact (h.eq_of_isExact (hOptions _ hOption) hAccepts).trans hAccepts
  | @object _ members' hKnown hItems hRequired hGapFree ih =>
      cases hSchema with
      | object hObject hFields =>
        cases h with
        | same => exact .object hKnown hItems hRequired hGapFree
        | @object members _ hKeys hWidened =>
          refine .object (fun member hm => ?_) (fun member hm field hField hName => ?_)
            (fun field hField hReq => (hKeys _).mpr (hRequired field hField hReq))
            ((ObjectSchema.gapFree_congr _ hKeys).mpr hGapFree)
          · obtain ⟨item', hm', -⟩ := exists_widened_member hKeys hWidened hm
            exact hKnown (member.1, item') hm'
          · obtain ⟨item', hm', hPair⟩ := exists_widened_member hKeys hWidened hm
            exact ih (member.1, item') hm' field hField hName (hFields field hField) hPair

end Schema

end ToolSchema
