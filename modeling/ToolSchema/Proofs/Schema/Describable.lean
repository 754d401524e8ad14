import ToolSchema.Proofs.Schema.Erasure
import ToolSchema.Proofs.Schema.Validity

/-! Which schemas have a document. Where there is none, the failure names the
first schema in the way, in the order in which the fields are declared. -/
namespace ToolSchema

/-- An obstacle seen from outside the fields on the way to it. Each step is a
field with the object that it belongs to, the outermost first. -/
def Obstacle.within (own : Obstacle) (path : List (String × String)) : Obstacle :=
  path.foldr (fun step inner => .inField step.1 step.2 inner) own

/-- The fields on the way do not change what cannot be described. -/
theorem Obstacle.shape_within (own : Obstacle) (path : List (String × String)) :
    (own.within path).shape = own.shape := by
  induction path with
  | nil => rfl
  | cons step more ih => exact ih

/-- The message names the fields on the way, the outermost first, before it says what cannot be
described. -/
theorem Obstacle.message_within (own : Obstacle) (path : List (String × String)) :
    (own.within path).message =
      String.join (path.map fun step => "field '" ++ step.1 ++ "' of '" ++ step.2 ++ "': ") ++
        own.message := by
  induction path with
  | nil => simp [within]
  | cons step more ih =>
      rw [List.map_cons, String.join_cons, String.append_assoc, ← ih]
      rfl

namespace Schema

open Except (bind_eq_ok_iff)

/-- One alternative, alone or beside the absent value. -/
def Sole (options : List (Option Schema)) (schema : Schema) : Prop :=
  options = [some schema] ∨ options = [some schema, none] ∨ options = [none, some schema]

/-- Scalars and absent values, with one scalar at least. -/
def ScalarChoice (options : List (Option Schema)) : Prop :=
  (∀ schema, some schema ∈ options → ∃ kind, schema = .primitive kind) ∧
    ∃ kind, some (.primitive kind) ∈ options

/-- A document can say all that the schema says. -/
inductive Describable : Schema → Prop
  | primitive (kind : Scalar) : Describable (.primitive kind)
  | sequence (origin : Origin) {item : Schema} (hItem : Describable item) :
      Describable (.sequence origin item)
  | literal {options : List Constant} (hTexts : ∀ option ∈ options, ∃ text, option = .str text) :
      Describable (.literal options)
  | sole {options : List (Option Schema)} {schema : Schema} (hSole : Sole options schema)
      (hSchema : Describable schema) : Describable (.union options)
  | scalars {options : List (Option Schema)} (hScalars : ScalarChoice options) :
      Describable (.union options)
  | object {object : ObjectSchema Schema}
      (hFields : ∀ field ∈ object.fields, Describable field.schema) : Describable (.object object)

/-- No document can say what the schema says, whatever its parts are. -/
inductive Offending : Schema → Prop
  | undefined (type : TypeExpr) : Offending (.undefined type)
  | tuple (origin : Origin) (items : List Schema) : Offending (.tuple origin items)
  | mapping (origin : Origin) (key value : Schema) : Offending (.mapping origin key value)
  | union {options : List (Option Schema)} (hSole : ∀ schema, ¬ Sole options schema)
      (hScalars : ¬ ScalarChoice options) : Offending (.union options)
  | literal {options : List Constant} {option : Constant} (hm : option ∈ options)
      (hOther : ∀ text, option ≠ .str text) : Offending (.literal options)

/-- The first offending schema, with the fields on the way to it. -/
inductive FirstOffender : Schema → List (String × String) → Schema → Prop
  | here {schema : Schema} (h : Offending schema) : FirstOffender schema [] schema
  | sequence (origin : Origin) {item offender : Schema} {path : List (String × String)}
      (hItem : FirstOffender item path offender) :
      FirstOffender (.sequence origin item) path offender
  | sole {options : List (Option Schema)} {schema offender : Schema}
      {path : List (String × String)} (hSole : Sole options schema)
      (hSchema : FirstOffender schema path offender) :
      FirstOffender (.union options) path offender
  | field {object : ObjectSchema Schema} {before after : List (Field Schema)}
      {field : Field Schema} {offender : Schema} {path : List (String × String)}
      (hFields : object.fields = before ++ field :: after)
      (hBefore : ∀ earlier ∈ before, Describable earlier.schema)
      (hField : FirstOffender field.schema path offender) :
      FirstOffender (.object object) ((field.name, object.name) :: path) offender

/-- The search for a sole alternative finds it in all three forms, and finds nothing else. -/
theorem only?_eq_some_iff (options : List (Option Schema)) (schema : Schema) :
    only? options = some schema ↔ Sole options schema := by
  unfold only?
  split <;> simp_all [Sole]

theorem only?_eq_none_iff (options : List (Option Schema)) :
    only? options = none ↔ ∀ schema, ¬ Sole options schema := by
  simp only [Option.eq_none_iff_forall_ne_some, ne_eq, only?_eq_some_iff]

/-- A union with a sole alternative is described by it, with its own hint. -/
theorem describe_sole {options : List (Option Schema)} {schema : Schema}
    (hSole : Sole options schema) (hint : Option String) :
    describe (.union options) hint = describe schema hint := by
  rw [describe_union_eq, (only?_eq_some_iff _ _).mpr hSole]

/-! Success -/

/-- The types of some kinds of scalars are those of the kinds, without integers
beside numbers. -/
theorem mem_typeNames_iff (kinds : List Scalar) (type : TypeName) :
    type ∈ typeNames kinds ↔
      (∃ kind ∈ kinds, kind.typeName = type) ∧ (type = .integer → Scalar.float ∉ kinds) := by
  have hNames (type : TypeName) : type ∈ (kinds.map Scalar.typeName).foldl (fun seen name =>
      if seen.contains name then seen else seen ++ [name]) [] ↔
        ∃ kind ∈ kinds, kind.typeName = type := by
    rw [mem_foldl_append_new, List.mem_map, or_iff_right List.not_mem_nil]
  have hFloat : (∃ kind ∈ kinds, kind.typeName = .number) ↔ Scalar.float ∈ kinds := by
    constructor
    · intro h
      obtain ⟨kind, hm, hNumber⟩ := h
      cases kind <;> cases hNumber
      exact hm
    · intro hm
      exact ⟨.float, hm, rfl⟩
  rw [typeNames]
  split
  · next hPresent =>
    rw [List.contains_eq_mem, decide_eq_true_eq, hNames, hFloat] at hPresent
    simp only [List.mem_filter, hNames, bne_iff_ne, ne_eq, hPresent, not_true_eq_false, imp_false]
  · next hAbsent =>
    rw [List.contains_eq_mem, decide_eq_true_eq, hNames, hFloat] at hAbsent
    simp only [hNames, hAbsent, not_false_eq_true, implies_true, and_true]

/-- Integers may be left out, but then there are numbers. -/
theorem ne_nil_of_forall_mem_iff {kinds : List Scalar} {types : List TypeName}
    (h : ∀ type, type ∈ types ↔
      (∃ kind ∈ kinds, kind.typeName = type) ∧ (type = .integer → Scalar.float ∉ kinds))
    {kind : Scalar} (hm : kind ∈ kinds) : types ≠ [] := by
  by_cases hFloat : Scalar.float ∈ kinds
  · exact List.ne_nil_of_mem ((h .number).mpr ⟨⟨.float, hFloat, rfl⟩, nofun⟩)
  · exact List.ne_nil_of_mem ((h kind.typeName).mpr ⟨⟨kind, hm, rfl⟩, fun _ => hFloat⟩)

/-- One scalar is enough for a list of types. -/
theorem describeScalars_ok_of_mem {kinds : List Scalar} {kind : Scalar} (hm : kind ∈ kinds)
    (hint : Option String) : ∃ document, describeScalars kinds hint = .ok document := by
  unfold describeScalars
  split
  · next hNil => exact absurd hNil (ne_nil_of_forall_mem_iff (mem_typeNames_iff kinds) hm)
  · exact ⟨_, rfl⟩
  · exact ⟨_, rfl⟩

/-- The test for a union of scalars as a statement about its alternatives. -/
theorem all_isScalarOption_iff (options : List (Option Schema)) :
    options.all isScalarOption = true ↔
      ∀ schema, some schema ∈ options → ∃ kind, schema = .primitive kind := by
  rw [List.all_eq_true]
  constructor
  · intro h schema hm
    exact primitive_of_isScalarOption (h _ hm)
  · intro h option hm
    cases option with
    | none => rfl
    | some schema =>
        obtain ⟨kind, rfl⟩ := h schema hm
        rfl

theorem ScalarChoice.describe_ok {options : List (Option Schema)} (h : ScalarChoice options)
    (hint : Option String) : ∃ document, describe (.union options) hint = .ok document := by
  obtain ⟨hAll, kind, hKind⟩ := h
  rw [describe_union_eq]
  cases hOnly : only? options with
  | some schema =>
      obtain ⟨kind, rfl⟩ := hAll schema (mem_of_only? hOnly)
      exact ⟨_, rfl⟩
  | none =>
      dsimp only
      rw [if_pos ((all_isScalarOption_iff options).mpr hAll)]
      exact describeScalars_ok_of_mem ((mem_scalarKinds options kind).mpr hKind) hint

/-- Texts alone can be shown as texts. -/
theorem mapM_str?_ok {options : List Constant}
    (h : ∀ option ∈ options, ∃ text, option = .str text) :
    ∃ texts, options.mapM Constant.str? = some texts := by
  induction options with
  | nil => exact ⟨[], rfl⟩
  | cons option more ih =>
      rw [List.forall_mem_cons] at h
      obtain ⟨⟨text, rfl⟩, hMore⟩ := h
      obtain ⟨texts, hTexts⟩ := ih hMore
      rw [List.mapM_cons, hTexts]
      exact ⟨text :: texts, rfl⟩

/-- If all fields have documents, then so do the fields together. -/
theorem describeFields_ok_of_forall (name : String) {fields : List (Field Schema)}
    (h : ∀ field ∈ fields, ∃ document, describe field.schema field.hint = .ok document) :
    ∃ properties, describeFields name fields = .ok properties := by
  induction fields with
  | nil => exact ⟨[], rfl⟩
  | cons field more ih =>
      rw [List.forall_mem_cons] at h
      obtain ⟨⟨document, hDocument⟩, hMore⟩ := h
      obtain ⟨properties, hProperties⟩ := ih hMore
      rw [describeFields_cons, hDocument, hProperties]
      exact ⟨_, rfl⟩

/-- By induction over the derivation that the schema is describable. -/
theorem Describable.describe_ok {schema : Schema} (h : Describable schema)
    (hint : Option String) : ∃ document, describe schema hint = .ok document := by
  induction h generalizing hint with
  | primitive kind => exact ⟨_, rfl⟩
  | sequence origin _ ih =>
      obtain ⟨items, hItems⟩ := ih none
      rw [describe, hItems]
      exact ⟨_, rfl⟩
  | literal hTexts =>
      obtain ⟨texts, hSome⟩ := mapM_str?_ok hTexts
      rw [describe, describeLiteral, hSome]
      exact ⟨_, rfl⟩
  | sole hSole _ ih =>
      rw [describe_sole hSole]
      exact ih hint
  | scalars hScalars => exact hScalars.describe_ok hint
  | @object object _ ih =>
      obtain ⟨properties, hProperties⟩ :=
        describeFields_ok_of_forall object.name fun field hm => ih field hm field.hint
      rw [describe, hProperties]
      exact ⟨_, rfl⟩

/-! Failure -/

/-- An offending schema is refused for what it is, whatever the hint. -/
theorem Offending.describe_error {schema : Schema} (h : Offending schema) :
    ∃ own, own.shape = schema.shape ∧ ∀ hint, describe schema hint = .error own := by
  cases h with
  | undefined type => exact ⟨.describeUndefined, rfl, fun _ => rfl⟩
  | tuple origin items => exact ⟨.describeTuple, rfl, fun _ => rfl⟩
  | mapping origin key value => exact ⟨.describeMapping, rfl, fun _ => rfl⟩
  | @union options hSole hScalars =>
      have hOnly := (only?_eq_none_iff options).mpr hSole
      by_cases hAll : options.all isScalarOption = true
      · have hKinds : scalarKinds options = [] := List.eq_nil_iff_forall_not_mem.mpr fun kind hm =>
          hScalars ⟨(all_isScalarOption_iff options).mp hAll, kind,
            (mem_scalarKinds options kind).mp hm⟩
        refine ⟨.describeEmptyUnion, rfl, fun hint => ?_⟩
        rw [describe_union_eq, hOnly, hKinds]
        exact if_pos hAll
      · refine ⟨.describeUnion, rfl, fun hint => ?_⟩
        rw [describe_union_eq, hOnly]
        exact if_neg hAll
  | @literal options option hm hOther =>
      refine ⟨.describeLiteral, rfl, fun hint => ?_⟩
      rw [describe, describeLiteral]
      cases hTexts : options.mapM Constant.str? with
      | none => rfl
      | some texts =>
          rw [eq_map_of_mapM_str? hTexts] at hm
          obtain ⟨text, _, rfl⟩ := List.mem_map.mp hm
          exact absurd rfl (hOther text)

/-- The first field without a document decides about the failure, and its name is added. -/
theorem describeFields_error (name : String) {before after : List (Field Schema)}
    {field : Field Schema} {obstacle : Obstacle}
    (hBefore : ∀ earlier ∈ before, Describable earlier.schema)
    (hField : describe field.schema field.hint = .error obstacle) :
    describeFields name (before ++ field :: after) = .error (.inField field.name name obstacle) := by
  induction before with
  | nil =>
      rw [List.nil_append, describeFields_cons, hField]
      rfl
  | cons first more ih =>
      rw [List.forall_mem_cons] at hBefore
      obtain ⟨document, hDocument⟩ := hBefore.1.describe_ok first.hint
      rw [List.cons_append, describeFields_cons, hDocument, ih hBefore.2]
      rfl

/-- The first offending schema is the reason of the failure, seen from outside
the fields on the way to it. -/
theorem FirstOffender.describe_error {schema offender : Schema} {path : List (String × String)}
    (h : FirstOffender schema path offender) :
    ∃ own, own.shape = offender.shape ∧ describe offender none = .error own ∧
      ∀ hint, describe schema hint = .error (own.within path) := by
  induction h with
  | here h =>
      obtain ⟨own, hShape, hError⟩ := h.describe_error
      exact ⟨own, hShape, hError none, hError⟩
  | sequence origin _ ih =>
      obtain ⟨own, hShape, hOwn, hError⟩ := ih
      refine ⟨own, hShape, hOwn, fun hint => ?_⟩
      rw [describe, hError none]
      rfl
  | sole hSole _ ih =>
      obtain ⟨own, hShape, hOwn, hError⟩ := ih
      refine ⟨own, hShape, hOwn, fun hint => ?_⟩
      rw [describe_sole hSole, hError hint]
  | @field object before after field offender path hFields hBefore _ ih =>
      obtain ⟨own, hShape, hOwn, hError⟩ := ih
      refine ⟨own, hShape, hOwn, fun hint => ?_⟩
      rw [describe, hFields, describeFields_error object.name hBefore (hError field.hint)]
      rfl

/-! Every schema is one or the other -/

/-- Either all fields are describable, or there is a first one that is not. -/
theorem exists_firstOffender_of_fields {fields : List (Field Schema)}
    (h : ∀ field ∈ fields, Describable field.schema ∨
      ∃ path offender, FirstOffender field.schema path offender) :
    (∀ field ∈ fields, Describable field.schema) ∨
      ∃ before field after path offender, fields = before ++ field :: after ∧
        (∀ earlier ∈ before, Describable earlier.schema) ∧
        FirstOffender field.schema path offender := by
  induction fields with
  | nil => exact .inl nofun
  | cons field more ih =>
      rw [List.forall_mem_cons] at h
      rcases h.1 with hField | ⟨path, offender, hField⟩
      · rcases ih h.2 with hMore | ⟨before, other, after, path, offender, rfl, hBefore, hOther⟩
        · exact .inl (List.forall_mem_cons.mpr ⟨hField, hMore⟩)
        · exact .inr ⟨field :: before, other, after, path, offender, rfl,
            List.forall_mem_cons.mpr ⟨hField, hBefore⟩, hOther⟩
      · exact .inr ⟨[], field, more, path, offender, rfl, nofun, hField⟩

/-- By induction over the schema. Nothing is left between the two relations, so the lemmas above say
when description succeeds. -/
theorem describable_or_firstOffender (schema : Schema) :
    Describable schema ∨ ∃ path offender, FirstOffender schema path offender := by
  induction schema using Schema.induction with
  | undefined type => exact .inr ⟨_, _, .here (.undefined type)⟩
  | primitive kind => exact .inl (.primitive kind)
  | sequence origin item ih =>
      rcases ih with hItem | ⟨path, offender, hItem⟩
      · exact .inl (.sequence origin hItem)
      · exact .inr ⟨path, offender, .sequence origin hItem⟩
  | tuple origin items _ => exact .inr ⟨_, _, .here (.tuple origin items)⟩
  | mapping origin key value _ _ => exact .inr ⟨_, _, .here (.mapping origin key value)⟩
  | union options ih =>
      cases hOnly : only? options with
      | some schema =>
          have hSole := (only?_eq_some_iff options schema).mp hOnly
          rcases ih schema (mem_of_only? hOnly) with hSchema | ⟨path, offender, hSchema⟩
          · exact .inl (.sole hSole hSchema)
          · exact .inr ⟨path, offender, .sole hSole hSchema⟩
      | none =>
          have hSole := (only?_eq_none_iff options).mp hOnly
          by_cases hScalars : ScalarChoice options
          · exact .inl (.scalars hScalars)
          · exact .inr ⟨_, _, .here (.union hSole hScalars)⟩
  | literal options =>
      by_cases hTexts : ∀ option ∈ options, ∃ text, option = .str text
      · exact .inl (.literal hTexts)
      · obtain ⟨option, hOption⟩ := not_forall.mp hTexts
        obtain ⟨hm, hOther⟩ := Classical.not_imp.mp hOption
        exact .inr ⟨_, _, .here (.literal hm (not_exists.mp hOther))⟩
  | object object ih =>
      rcases exists_firstOffender_of_fields ih with
        hFields | ⟨before, field, after, path, offender, hFields, hBefore, hField⟩
      · exact .inl (.object hFields)
      · exact .inr ⟨_, offender, .field hFields hBefore hField⟩

/-- A schema has a document if and only if it is describable. Any other schema
has a first offender, and the failure has its shape and its message behind the
fields on the way to it. -/
theorem describe_ok_or_first_offender (schema : Schema) (hint : Option String) :
    ((∃ document, describe schema hint = .ok document) ↔ Describable schema) ∧
    (¬ Describable schema → ∃ path offender, FirstOffender schema path offender) ∧
    ∀ path offender, FirstOffender schema path offender → ∃ obstacle own,
      describe schema hint = .error obstacle ∧ describe offender none = .error own ∧
        obstacle.shape = offender.shape ∧
        obstacle.message =
          String.join (path.map fun step => "field '" ++ step.1 ++ "' of '" ++ step.2 ++ "': ") ++
            own.message := by
  refine ⟨⟨?_, fun h => h.describe_ok hint⟩, (describable_or_firstOffender schema).resolve_left, ?_⟩
  · rintro ⟨document, hDocument⟩
    refine (describable_or_firstOffender schema).resolve_right ?_
    rintro ⟨path, offender, h⟩
    obtain ⟨own, _, _, hError⟩ := h.describe_error
    rw [hError hint] at hDocument
    cases hDocument
  · intro path offender h
    obtain ⟨own, hShape, hOwn, hError⟩ := h.describe_error
    exact ⟨own.within path, own, hError hint, hOwn, (own.shape_within path).trans hShape,
      own.message_within path⟩

/-- The tuple is in the way, and not the mapping behind it. -/
theorem describe_error_of_line :
    FirstOffender (.object ⟨"Line", fun _ => .ok .absent, none, [], [⟨"id", .primitive .int, none, true⟩,
      ⟨"sizes", .sequence .list (.tuple .tuple [.primitive .int]), none, true⟩,
      ⟨"notes", .mapping .dict (.primitive .str) (.primitive .str), none, false⟩]⟩)
        [("sizes", "Line")] (.tuple .tuple [.primitive .int]) ∧
    ∃ obstacle,
      describe (.object ⟨"Line", fun _ => .ok .absent, none, [], [⟨"id", .primitive .int, none, true⟩,
        ⟨"sizes", .sequence .list (.tuple .tuple [.primitive .int]), none, true⟩,
        ⟨"notes", .mapping .dict (.primitive .str) (.primitive .str), none, false⟩]⟩) none =
          .error obstacle ∧
      obstacle.shape = .tuple ∧
      obstacle.message = "field 'sizes' of 'Line': " ++
        "JSON schema cannot be generated for heterogeneous tuple types." := by
  have hFirst : FirstOffender (.object ⟨"Line", fun _ => .ok .absent, none, [],
      [⟨"id", .primitive .int, none, true⟩,
        ⟨"sizes", .sequence .list (.tuple .tuple [.primitive .int]), none, true⟩,
        ⟨"notes", .mapping .dict (.primitive .str) (.primitive .str), none, false⟩]⟩)
      [("sizes", "Line")] (.tuple .tuple [.primitive .int]) :=
    @FirstOffender.field _ [⟨"id", .primitive .int, none, true⟩] _
      ⟨"sizes", .sequence .list (.tuple .tuple [.primitive .int]), none, true⟩ _ _ rfl
      (List.forall_mem_singleton.mpr (.primitive .int)) (.sequence .list (.here (.tuple _ _)))
  obtain ⟨obstacle, own, hError, hOwn, hShape, hMessage⟩ :=
    (describe_ok_or_first_offender _ none).2.2 _ _ hFirst
  cases hOwn
  refine ⟨hFirst, obstacle, hError, hShape, hMessage.trans ?_⟩
  decide

end Schema

end ToolSchema
