import ToolSchema.Proofs.Schema.Describable
import ToolSchema.Proofs.Schema.Obstacles

/-! What the documents of schemas look like at every depth. A hint has no effect
but on the description of the document that it is given for. -/
namespace ToolSchema

/-- The document without its description. Those of its parts stay. -/
def Document.withoutOwnDescription : Document → Document
  | .enum tag values _ => .enum tag values none
  | .array tag items _ => .array tag items none
  | .object node => .object { node with description := none }
  | .leaf types _ => .leaf types none

/-- One type alone, or several. -/
def TypeChoice.of : List TypeName → TypeChoice
  | [type] => .single type
  | types => .many types

/-- Every part of the document has the type of its kind, and where types are
listed there is something to choose. A description says something. -/
inductive Document.WellFormed : Document → Prop
  | enum {values : List String} {description : Option String} (hDescription : description ≠ some "") :
      WellFormed (.enum .string values description)
  | array {items : Document} {description : Option String} (hItems : WellFormed items)
      (hDescription : description ≠ some "") : WellFormed (.array .array items description)
  | object {properties : List (String × Document)} {required : List String}
      {description : Option String} (hProperties : ∀ property ∈ properties, WellFormed property.2)
      (hDescription : description ≠ some "") :
      WellFormed (.object ⟨.object, properties, required, description⟩)
  | single {type : TypeName} {description : Option String} (hNull : type ≠ .null)
      (hDescription : description ≠ some "") : WellFormed (.leaf (.single type) description)
  | many {types : List TypeName} {description : Option String} (hSeveral : 2 ≤ types.length)
      (hDistinct : types.Nodup) (hNull : .null ∉ types)
      (hNumbers : ¬(.integer ∈ types ∧ .number ∈ types)) (hDescription : description ≠ some "") :
      WellFormed (.leaf (.many types) description)

namespace Schema

open Except (AgreeUpTo bind_eq_ok_iff pure_eq_ok_iff)

/-- The hints that say something, with a blank line between neighbours. -/
def spoken (hints : List (Option String)) : Option String :=
  match hints.filterMap (Option.filter (· ≠ "")) with
  | [] => none
  | texts => some ("\n\n".intercalate texts)

/-- The document says what the schema says, with the hint as its description. An
item has no hint, a sole alternative has that of its union, and a field has its
own. -/
inductive Describes : Schema → Option String → Document → Prop
  | primitive (kind : Scalar) (hint : Option String) :
      Describes (.primitive kind) hint (.leaf (.single kind.typeName) (spoken [hint]))
  | sequence (origin : Origin) (hint : Option String) {item : Schema} {items : Document}
      (hItems : Describes item none items) :
      Describes (.sequence origin item) hint (.array .array items (spoken [hint]))
  | literal (texts : List String) (hint : Option String) :
      Describes (.literal (texts.map .str)) hint (.enum .string texts (spoken [hint]))
  | sole {options : List (Option Schema)} {schema : Schema} {hint : Option String}
      {document : Document} (hSole : Sole options schema)
      (hSchema : Describes schema hint document) : Describes (.union options) hint document
  | scalars {options : List (Option Schema)} {types : List TypeName} (hint : Option String)
      (hScalars : ScalarChoice options) (hDistinct : types.Nodup)
      (hTypes : ∀ type, type ∈ types ↔
        (∃ kind, some (.primitive kind) ∈ options ∧ kind.typeName = type) ∧
          (type = .integer → some (.primitive .float) ∉ options)) :
      Describes (.union options) hint (.leaf (.of types) (spoken [hint]))
  | object {object : ObjectSchema Schema} (hint : Option String)
      {properties : List (String × Document)}
      (hKeys : Entries.keys properties = object.fields.map (·.name))
      (hProperties : ∀ field ∈ object.fields, ∀ document, (field.name, document) ∈ properties →
        Describes field.schema field.hint document) :
      Describes (.object object) hint (.object ⟨.object, properties,
        (object.fields.filter (·.required)).map (·.name), spoken [hint, object.hint]⟩)

/-! Descriptions -/

/-- An empty hint counts as none. -/
theorem usableHint_eq_filter (hint : Option String) : usableHint hint = hint.filter (· ≠ "") := by
  cases hint with
  | none => rfl
  | some text =>
      by_cases hEmpty : text = ""
      · subst hEmpty
        rfl
      · rw [usableHint, Option.filter_some, if_pos (by simpa using hEmpty)]
        simpa using hEmpty

/-- Texts that are joined to the empty text begin with an empty text. -/
theorem intercalate_eq_empty {mark first : String} {more : List String}
    (h : mark.intercalate (first :: more) = "") : first = "" := by
  cases more with
  | nil => exact h
  | cons second more =>
      rw [String.intercalate_cons_cons, String.append_assoc, String.append_eq_empty_iff] at h
      exact h.1

/-- Hints are joined one after the other, with the same outcome as joining all that say
something. -/
theorem joinHints_eq_spoken (hints : List (Option String)) : joinHints hints = spoken hints := by
  have hUsable : usableHint = Option.filter (· ≠ "") := funext usableHint_eq_filter
  rw [joinHints, spoken, hUsable]
  cases hTexts : hints.filterMap (Option.filter (· ≠ "")) with
  | nil => rfl
  | cons first more =>
      have hFirst : first ≠ "" := by
        have hm : first ∈ hints.filterMap (Option.filter (· ≠ "")) := hTexts ▸ List.mem_cons_self
        obtain ⟨hint, _, hHint⟩ := List.mem_filterMap.mp hm
        simpa using (Option.filter_eq_some_iff.mp hHint).2
      refine Option.filter_eq_some_iff.mpr ⟨rfl, ?_⟩
      simpa using fun hEmpty => hFirst (intercalate_eq_empty hEmpty)

theorem usableHint_eq_spoken (hint : Option String) : usableHint hint = spoken [hint] := by
  rw [usableHint_eq_filter, spoken]
  cases hText : hint.filter (· ≠ "") with
  | none => rw [List.filterMap_cons_none hText]; rfl
  | some text => rw [List.filterMap_cons_some hText]; rfl

/-- A description is never the empty text: with nothing to say there is none. -/
theorem spoken_ne_empty (hints : List (Option String)) : spoken hints ≠ some "" := by
  rw [← joinHints_eq_spoken, joinHints, usableHint_eq_filter]
  intro h
  simpa using (Option.filter_eq_some_iff.mp h).2

/-! Types -/

/-- A type is added only if it is not there yet. -/
theorem nodup_foldl_append_new {names seen : List TypeName} (hSeen : seen.Nodup) :
    (names.foldl (fun seen name => if seen.contains name then seen else seen ++ [name]) seen).Nodup := by
  induction names generalizing seen with
  | nil => exact hSeen
  | cons name more ih =>
      rw [List.foldl_cons]
      split
      · exact ih hSeen
      · next hNew =>
        rw [List.contains_eq_mem, decide_eq_true_eq] at hNew
        exact ih (List.nodup_append.mpr ⟨hSeen, List.nodup_singleton name, fun a ha b hb he =>
          hNew (List.mem_singleton.mp hb ▸ he ▸ ha)⟩)

theorem nodup_typeNames (kinds : List Scalar) : (typeNames kinds).Nodup := by
  have hNames := @nodup_foldl_append_new (kinds.map Scalar.typeName) [] List.nodup_nil
  rw [typeNames]
  split
  · exact hNames.filter _
  · exact hNames

/-- Scalars have one form of document, with one type or with several. -/
theorem describeScalars_eq_of {kinds : List Scalar} {hint : Option String} {document : Document}
    (h : describeScalars kinds hint = .ok document) :
    document = .leaf (.of (typeNames kinds)) (usableHint hint) := by
  unfold describeScalars at h
  split at h
  · cases h
  · next type hTypes =>
    cases h
    rw [hTypes]
    rfl
  · next types hNil hSingle =>
    cases h
    rw [TypeChoice.of]
    exact hSingle

/-! Documents of schemas -/

/-- Description follows the relation, by induction over the schema for all hints. -/
theorem describes_of_describe {schema : Schema} (h : schema.Everywhere ObjectSchema.DistinctNames)
    {hint : Option String} {document : Document} (hDescribe : describe schema hint = .ok document) :
    Describes schema hint document := by
  induction h generalizing hint document with
  | undefined type => cases hDescribe
  | primitive kind =>
      cases hDescribe
      rw [usableHint_eq_spoken]
      exact .primitive kind hint
  | @sequence origin _ _ ih =>
      rw [describe] at hDescribe
      obtain ⟨items, hItems, hPure⟩ := bind_eq_ok_iff.mp hDescribe
      cases hPure
      rw [usableHint_eq_spoken]
      exact .sequence origin hint (ih hItems)
  | tuple _ _ => cases hDescribe
  | mapping _ _ => cases hDescribe
  | @union options _ ih =>
      rw [describe_union_eq] at hDescribe
      cases hOnly : only? options with
      | some schema =>
          rw [hOnly] at hDescribe
          exact .sole ((only?_eq_some_iff options schema).mp hOnly)
            (ih schema (mem_of_only? hOnly) hDescribe)
      | none =>
          rw [hOnly] at hDescribe
          dsimp only at hDescribe
          split at hDescribe
          · next hAll =>
            rw [describeScalars_eq_of hDescribe, usableHint_eq_spoken]
            refine .scalars hint ⟨(all_isScalarOption_iff options).mp hAll,
              exists_primitive_of_describeScalars hDescribe⟩ (nodup_typeNames _) fun type => ?_
            simp only [mem_typeNames_iff, mem_scalarKinds]
          · cases hDescribe
  | literal options =>
      rw [describe] at hDescribe
      obtain ⟨texts, rfl, rfl⟩ := describeLiteral_ok hDescribe
      rw [usableHint_eq_spoken]
      exact .literal texts hint
  | @object object hDistinct _ ih =>
      rw [describe] at hDescribe
      obtain ⟨properties, hProperties, hPure⟩ := bind_eq_ok_iff.mp hDescribe
      cases hPure
      have hFields := describeFields_ok hProperties
      have hNames : object.fields.map (·.name) = Entries.keys properties :=
        (hFields.imp fun _ _ h => h.1).map_eq
      rw [Entries.ofPairs_of_nodup (hNames ▸ hDistinct), joinHints_eq_spoken]
      refine .object hint hNames.symm fun field hm document hDocument => ?_
      obtain ⟨other, hOther, hName, hDescribed⟩ := hFields.exists_left hDocument
      rw [List.inj_on_of_nodup_map hDistinct hOther hm hName] at hDescribed
      exact ih field hm hDescribed

/-- A document that says what a schema says is well formed. -/
theorem Describes.wellFormed {schema : Schema} {hint : Option String} {document : Document}
    (h : Describes schema hint document) : document.WellFormed := by
  induction h with
  | primitive kind hint =>
      refine .single ?_ (spoken_ne_empty _)
      cases kind <;> exact nofun
  | sequence origin hint _ ih => exact .array ih (spoken_ne_empty _)
  | literal texts hint => exact .enum (spoken_ne_empty _)
  | sole _ _ ih => exact ih
  | @scalars options types hint hScalars hDistinct hTypes =>
      have hNull : .null ∉ types := by
        intro hm
        obtain ⟨⟨kind, _, hKind⟩, _⟩ := (hTypes .null).mp hm
        cases kind <;> cases hKind
      have hNumbers : ¬(.integer ∈ types ∧ .number ∈ types) := by
        rintro ⟨hInteger, hNumber⟩
        obtain ⟨⟨kind, hm, hKind⟩, _⟩ := (hTypes .number).mp hNumber
        cases kind <;> cases hKind
        exact ((hTypes .integer).mp hInteger).2 rfl hm
      rcases types with _ | ⟨type, _ | ⟨second, more⟩⟩
      · obtain ⟨-, kind, hKind⟩ := hScalars
        refine absurd rfl (@ne_nil_of_forall_mem_iff (scalarKinds options) [] ?_ _
          ((mem_scalarKinds options kind).mpr hKind))
        simpa only [mem_scalarKinds] using hTypes
      · exact .single (fun he => hNull (he ▸ List.mem_singleton_self _)) (spoken_ne_empty _)
      · exact .many (Nat.le_add_left _ _) hDistinct hNull hNumbers (spoken_ne_empty _)
  | @object object hint properties hKeys _ ih =>
      refine .object (fun property hm => ?_) (spoken_ne_empty _)
      have hName : property.1 ∈ object.fields.map (·.name) := hKeys ▸ Entries.mem_keys hm
      obtain ⟨field, hField, hSame⟩ := List.mem_map.mp hName
      exact ih field hField property.2 (hSame ▸ hm)

/-! Hints -/

/-- The hint of a schema is found in the description of its own document only. -/
theorem describe_agrees_apart_from_hint (schema : Schema) (hint hint' : Option String) :
    AgreeUpTo Document.withoutOwnDescription (describe schema hint) (describe schema hint') := by
  induction schema using Schema.induction with
  | undefined type => exact .refl _
  | primitive kind => exact .ok rfl
  | sequence origin item _ =>
      rw [describe, describe]
      refine (AgreeUpTo.refl (f := id) _).bind fun items items' hItems => .ok ?_
      cases hItems
      rfl
  | tuple origin items _ => exact .refl _
  | mapping origin key value _ _ => exact .refl _
  | union options ih =>
      rw [describe_union_eq, describe_union_eq]
      cases hOnly : only? options with
      | some schema => exact ih schema (mem_of_only? hOnly)
      | none =>
          dsimp only
          split
          · unfold describeScalars
            split
            · rfl
            · exact .ok rfl
            · exact .ok rfl
          · rfl
  | literal options =>
      rw [describe, describe, describeLiteral, describeLiteral]
      cases options.mapM Constant.str? with
      | none => rfl
      | some texts => exact .ok rfl
  | object object _ =>
      rw [describe, describe]
      refine (AgreeUpTo.refl (f := id) _).bind fun properties properties' hProperties => .ok ?_
      cases hProperties
      rfl

/-- Two documents of a schema differ at most in their own descriptions, and each
says at every depth what the schema says, in a well-formed way. -/
theorem documents_well_formed {schema : Schema}
    (hDistinct : schema.Everywhere ObjectSchema.DistinctNames) {hint hint' : Option String}
    {document document' : Document} (h : describe schema hint = .ok document)
    (h' : describe schema hint' = .ok document') :
    document.withoutOwnDescription = document'.withoutOwnDescription ∧
      document.WellFormed ∧ Describes schema hint document := by
  have hDescribes := describes_of_describe hDistinct h
  have hAgree := describe_agrees_apart_from_hint schema hint hint'
  rw [h, h'] at hAgree
  exact ⟨Except.ok.inj hAgree, hDescribes.wellFormed, hDescribes⟩

/-- The two hints are joined, the empty one is left out, and integers are not
named beside numbers. -/
theorem documents_well_formed_of_point :
    Document.WellFormed (.object ⟨.object, [("x", .leaf (.many [.number, .string]) none)], ["x"],
      some "In space.\n\nA point."⟩) ∧
    Describes (.object ⟨"Point", fun _ => .ok .absent, some "A point.", [],
        [⟨"x", .union [some (.primitive .int), some (.primitive .float), some (.primitive .str)],
          some "", true⟩]⟩) (some "In space.")
      (.object ⟨.object, [("x", .leaf (.many [.number, .string]) none)], ["x"],
        some "In space.\n\nA point."⟩) := by
  have hDistinct : Everywhere ObjectSchema.DistinctNames
      (.object ⟨"Point", fun _ => .ok .absent, some "A point.", [],
        [⟨"x", .union [some (.primitive .int), some (.primitive .float), some (.primitive .str)],
          some "", true⟩]⟩) := by
    refine .object (List.nodup_singleton "x") (List.forall_mem_singleton.mpr (.union ?_))
    intro option hm
    simp only [List.mem_cons, Option.some.injEq, List.not_mem_nil, or_false] at hm
    rcases hm with rfl | rfl | rfl <;> exact .primitive _
  exact (@documents_well_formed _ hDistinct (some "In space.") none _ _ rfl rfl).2

end Schema

end ToolSchema
