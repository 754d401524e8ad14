import ToolSchema.Proofs.Entries
import ToolSchema.Proofs.Except
import ToolSchema.Proofs.Schema.Rereading
import ToolSchema.Proofs.Schema.Structure
import ToolSchema.Schema.Description

/-! Schemas and documents without the texts that only explain them. Evaluation does
not look at these texts, and a document differs by them in its descriptions only. -/
namespace ToolSchema

/-- The field with the hint taken off, and with what becomes of its schema. -/
def Field.withoutHint {α β : Type} (f : α → β) (field : Field α) : Field β :=
  ⟨field.name, f field.schema, none, field.required⟩

namespace Schema

mutual

/-- The schema without hints, at any depth. -/
def withoutHints : Schema → Schema
  | .undefined type => .undefined type
  | .primitive kind => .primitive kind
  | .sequence origin item => .sequence origin (withoutHints item)
  | .tuple origin items => .tuple origin (allWithoutHints items)
  | .mapping origin key value => .mapping origin (withoutHints key) (withoutHints value)
  | .union options => .union (optionsWithoutHints options)
  | .literal options => .literal options
  | .object ⟨name, construct, _, positionalOnly, fields⟩ =>
    .object ⟨name, construct, none, positionalOnly, fieldsWithoutHints fields⟩

def allWithoutHints : List Schema → List Schema
  | [] => []
  | schema :: more => withoutHints schema :: allWithoutHints more

def optionsWithoutHints : List (Option Schema) → List (Option Schema)
  | [] => []
  | none :: more => none :: optionsWithoutHints more
  | some schema :: more => some (withoutHints schema) :: optionsWithoutHints more

def fieldsWithoutHints : List (Field Schema) → List (Field Schema)
  | [] => []
  | ⟨name, schema, _, required⟩ :: more =>
    ⟨name, withoutHints schema, none, required⟩ :: fieldsWithoutHints more

end

/-- The recursive form of the definition is an ordinary map. This and the next lemma give access to
the library on lists. -/
theorem allWithoutHints_eq_map (schemas : List Schema) :
    allWithoutHints schemas = schemas.map withoutHints := by
  induction schemas with
  | nil => rfl
  | cons schema more ih => exact congrArg _ ih

theorem fieldsWithoutHints_eq_map (fields : List (Field Schema)) :
    fieldsWithoutHints fields = fields.map (Field.withoutHint withoutHints) := by
  induction fields with
  | nil => rfl
  | cons field more ih => exact congrArg _ ih

end Schema

def ObjectSchema.withoutHints (object : ObjectSchema Schema) : ObjectSchema Schema :=
  ⟨object.name, object.construct, none, object.positionalOnly,
    Schema.fieldsWithoutHints object.fields⟩

/-- The schema of a callable without hints and without the long description. -/
def CallableSchema.withoutHints (schema : CallableSchema) : CallableSchema :=
  ⟨schema.call.withoutHints, schema.returns.withoutHints, none⟩

namespace Schema

/-! Names and shapes -/

/-- The text of a union comes from the texts of its alternatives, which stay. -/
theorem optionTexts_withoutHints {options : List (Option Schema)}
    (h : ∀ option, some option ∈ options → text (withoutHints option) = text option) :
    optionTexts (optionsWithoutHints options) = optionTexts options := by
  induction options with
  | nil => rfl
  | cons option more ih =>
      have hMore := ih fun other hm => h other (List.mem_cons_of_mem _ hm)
      cases option with
      | none => rw [optionsWithoutHints, optionTexts, optionTexts, hMore]
      | some schema =>
          rw [optionsWithoutHints, optionTexts, optionTexts, hMore, h schema List.mem_cons_self]

theorem texts_withoutHints {schemas : List Schema}
    (h : ∀ schema ∈ schemas, text (withoutHints schema) = text schema) :
    texts (allWithoutHints schemas) = texts schemas := by
  induction schemas with
  | nil => rfl
  | cons schema more ih =>
      rw [List.forall_mem_cons] at h
      rw [allWithoutHints, texts, texts, h.1, ih h.2]

/-- Schemas are named in messages by their shape. A hint is not part of the name. -/
theorem text_withoutHints (schema : Schema) : text (withoutHints schema) = text schema := by
  induction schema using Schema.induction with
  | sequence origin item ih => rw [withoutHints, text, text, ih]
  | tuple origin items ih => rw [withoutHints, text, text, texts_withoutHints ih]
  | mapping origin key value ihKey ihValue => rw [withoutHints, text, text, ihKey, ihValue]
  | union options ih => rw [withoutHints, text, text, optionTexts_withoutHints ih]
  | object object _ => rfl
  | _ => rfl

/-- Whether a union has the absent value is not a matter of hints. -/
theorem isOptional_withoutHints (options : List (Option Schema)) :
    isOptional (optionsWithoutHints options) = isOptional options := by
  induction options with
  | nil => rfl
  | cons option more ih =>
      cases option with
      | none => rfl
      | some schema => exact ih

/-! Evaluation -/

theorem findField?_withoutHint {α : Type} (fields : List (Field α)) (name : String) :
    findField? (fields.map (Field.withoutHint id)) name =
      (findField? fields name).map (Field.withoutHint id) := by
  rw [findField?, List.find?_map]
  rfl

theorem evalMembers_withoutHint (fields : List (Field Evaluator)) (path : Path)
    (supplied : Entries Value) (members : List (String × Json)) :
    evalMembers (fields.map (Field.withoutHint id)) path supplied members =
      evalMembers fields path supplied members := by
  induction members generalizing supplied with
  | nil => rfl
  | cons member more ih =>
      obtain ⟨key, item⟩ := member
      rw [evalMembers, evalMembers, findField?_withoutHint]
      cases findField? fields key with
      | none => rfl
      | some field =>
          refine bind_congr fun value => ?_
          exact ih _

theorem missingFields_withoutHint {α : Type} (fields : List (Field α)) (supplied : Entries Value) :
    missingFields (fields.map (Field.withoutHint id)) supplied = missingFields fields supplied := by
  have hNames (fields : List (Field α)) :
      (fields.map (Field.withoutHint id)).map (·.name) = fields.map (·.name) := by
    rw [List.map_map]
    rfl
  have hRequired : (fields.map (Field.withoutHint id)).filter (·.required) =
      (fields.filter (·.required)).map (Field.withoutHint id) := by
    rw [List.filter_map]
    rfl
  simp only [missingFields, hRequired, hNames]

theorem arrange_withoutHint {α : Type} (positionalOnly : List String) (path : Path)
    (supplied : Entries Value) (gap : Option String) (fields : List (Field α)) :
    arrange positionalOnly path supplied gap (fields.map (Field.withoutHint id)) =
      arrange positionalOnly path supplied gap fields := by
  induction fields generalizing supplied gap with
  | nil => rfl
  | cons field more ih => simp only [List.map_cons, arrange, Field.withoutHint, ih]

/-- No part of the evaluation of an object reads a hint: neither that of the object nor those of its
fields. -/
theorem evalObject_withoutHint (name : String) (construct : Constructor) (hint : Option String)
    (positionalOnly : List String) (fields : List (Field Evaluator)) (path : Path) (value : Json) :
    evalObject ⟨name, construct, none, positionalOnly, fields.map (Field.withoutHint id)⟩ path value =
      evalObject ⟨name, construct, hint, positionalOnly, fields⟩ path value := by
  cases value with
  | object members =>
      simp only [evalObject, evalMembers_withoutHint, missingFields_withoutHint,
        arrange_withoutHint]
  | _ => rfl

theorem evalItems_withoutHints {schemas : List Schema}
    (h : ∀ schema ∈ schemas, evalAt (withoutHints schema) = evalAt schema) (path : Path)
    (index : Nat) (items : List Json) :
    evalItems (allWithoutHints schemas) path index items = evalItems schemas path index items := by
  induction schemas generalizing index items with
  | nil => rfl
  | cons schema more ih =>
      rw [List.forall_mem_cons] at h
      cases items with
      | nil => rfl
      | cons item items => simp only [allWithoutHints, evalItems, h.1, ih h.2]

theorem length_allWithoutHints (schemas : List Schema) :
    (allWithoutHints schemas).length = schemas.length := by
  rw [allWithoutHints_eq_map, List.length_map]

/-- The alternatives are tried in the same order, with the same outcomes. -/
theorem evalOptions_withoutHints {options : List (Option Schema)}
    (h : ∀ option, some option ∈ options → evalAt (withoutHints option) = evalAt option)
    (path : Path) (value : Json) :
    evalOptions (optionsWithoutHints options) path value = evalOptions options path value := by
  induction options with
  | nil => rfl
  | cons option more ih =>
      have hMore := ih fun other hm => h other (List.mem_cons_of_mem _ hm)
      cases option with
      | none => rw [optionsWithoutHints, evalOptions, evalOptions, hMore]
      | some schema =>
          rw [optionsWithoutHints, evalOptions, evalOptions, hMore, h schema List.mem_cons_self]

/-- The fields as evaluators are the same, apart from hints that nothing reads. -/
theorem evalFields_withoutHints {fields : List (Field Schema)}
    (h : ∀ field ∈ fields, evalAt (withoutHints field.schema) = evalAt field.schema) :
    evalFields (fieldsWithoutHints fields) = (evalFields fields).map (Field.withoutHint id) := by
  induction fields with
  | nil => rfl
  | cons field more ih =>
      rw [List.forall_mem_cons] at h
      rw [fieldsWithoutHints, evalFields, evalFields, h.1, ih h.2]
      rfl

/-- Hints do not take part in evaluation, not even in its failures. -/
theorem evalAt_withoutHints (schema : Schema) : evalAt (withoutHints schema) = evalAt schema := by
  induction schema using Schema.induction with
  | undefined type => rfl
  | primitive kind => rfl
  | sequence origin item ih =>
      funext path value
      cases value with
      | array items => rw [withoutHints, evalAt, evalAt, ih]
      | _ => rfl
  | tuple origin items ih =>
      funext path value
      cases value with
      | array values =>
          rw [withoutHints, evalAt, evalAt, length_allWithoutHints, evalItems_withoutHints ih]
      | _ => rfl
  | mapping origin key value _ _ => rfl
  | union options ih =>
      have hText := text_withoutHints (.union options)
      rw [withoutHints] at hText ⊢
      funext path value
      rw [evalAt.eq_def, evalAt.eq_def (.union options)]
      simp only [isOptional_withoutHints, hText, evalOptions_withoutHints ih]
  | literal options => rfl
  | object object ih =>
      funext path value
      rw [withoutHints, evalAt, evalAt, evalFields_withoutHints ih]
      exact evalObject_withoutHint _ _ _ _ _ path value

end Schema

/-- Texts that only explain a callable do not change what a call of it does. -/
theorem CallableSchema.eval_withoutHints (schema : CallableSchema) (value : Json) :
    schema.withoutHints.eval value = schema.eval value :=
  congrFun (congrFun (Schema.evalAt_withoutHints (.object schema.call)) []) value

/-! Documents -/

namespace Document

mutual

/-- The document without descriptions, at any depth. -/
def withoutDescriptions : Document → Document
  | .enum tag values _ => .enum tag values none
  | .array tag items _ => .array tag (withoutDescriptions items) none
  | .object ⟨tag, properties, required, _⟩ =>
    .object ⟨tag, propertiesWithoutDescriptions properties, required, none⟩
  | .leaf types _ => .leaf types none

def propertiesWithoutDescriptions : List (String × Document) → List (String × Document)
  | [] => []
  | (name, document) :: more =>
    (name, withoutDescriptions document) :: propertiesWithoutDescriptions more

end

/-- The recursive form as an ordinary map on the documents of the properties. -/
theorem propertiesWithoutDescriptions_eq_map (properties : List (String × Document)) :
    propertiesWithoutDescriptions properties =
      properties.map (Prod.map id withoutDescriptions) := by
  induction properties with
  | nil => rfl
  | cons property more ih => exact congrArg _ ih

end Document

def ObjectDocument.withoutDescriptions (object : ObjectDocument Document) :
    ObjectDocument Document :=
  ⟨object.tag, Document.propertiesWithoutDescriptions object.properties, object.required, none⟩

def ToolDocument.withoutDescriptions (tool : ToolDocument) : ToolDocument :=
  ⟨tool.flavor, tool.name, none, tool.parameters.withoutDescriptions⟩

open Except (AgreeUpTo)
open Document (withoutDescriptions propertiesWithoutDescriptions)

/-- Of two properties with one name the later is kept, with or without descriptions. -/
theorem ofPairs_propertiesWithoutDescriptions {properties properties' : List (String × Document)}
    (h : propertiesWithoutDescriptions properties = propertiesWithoutDescriptions properties') :
    propertiesWithoutDescriptions (Entries.ofPairs properties) =
      propertiesWithoutDescriptions (Entries.ofPairs properties') := by
  simp only [Document.propertiesWithoutDescriptions_eq_map] at h ⊢
  rw [← Entries.ofPairs_map, ← Entries.ofPairs_map, h]

namespace Schema

theorem optionsWithoutHints_eq_map (options : List (Option Schema)) :
    optionsWithoutHints options = options.map (Option.map withoutHints) := by
  induction options with
  | nil => rfl
  | cons option more ih =>
      rw [List.map_cons, ← ih]
      cases option <;> rfl

/-- Whether a union is one of scalars is not a matter of hints. -/
theorem isScalarOption_withoutHints (option : Option Schema) :
    isScalarOption (option.map withoutHints) = isScalarOption option := by
  cases option with
  | none => rfl
  | some schema => cases schema <;> rfl

theorem scalarKinds_withoutHints (options : List (Option Schema)) :
    scalarKinds (optionsWithoutHints options) = scalarKinds options := by
  rw [optionsWithoutHints_eq_map, scalarKinds, List.filterMap_map]
  refine List.filterMap_congr fun option _ => ?_
  cases option with
  | none => rfl
  | some schema => cases schema <;> rfl

/-- The alternative whose document is that of the union. -/
def only? : List (Option Schema) → Option Schema
  | [some schema] => some schema
  | [some schema, none] => some schema
  | [none, some schema] => some schema
  | _ => none

/-- The only alternative of a union is one of its alternatives. -/
theorem mem_of_only? {options : List (Option Schema)} {schema : Schema}
    (h : only? options = some schema) : some schema ∈ options := by
  unfold only? at h
  split at h <;> cases h <;> simp

theorem only?_withoutHints (options : List (Option Schema)) :
    only? (optionsWithoutHints options) = (only? options).map withoutHints := by
  rcases options with _ | ⟨_ | _, _ | ⟨_ | _, _ | ⟨_ | _, _⟩⟩⟩ <;> rfl

/-- The description of a union in one equation: the document of its only alternative, or that of its
scalars. -/
theorem describe_union_eq (options : List (Option Schema)) (hint : Option String) :
    describe (.union options) hint =
      match only? options with
      | some schema => describe schema hint
      | none =>
        if options.all isScalarOption then describeScalars (scalarKinds options) hint
        else .error .describeUnion := by
  rcases options with _ | ⟨_ | _, _ | ⟨_ | _, _ | ⟨_ | _, _⟩⟩⟩ <;> rfl

/-! Description -/

/-- A hint on scalars becomes the description of the document and nothing else. -/
theorem describeScalars_agrees (kinds : List Scalar) (hint hint' : Option String) :
    AgreeUpTo withoutDescriptions (describeScalars kinds hint) (describeScalars kinds hint') := by
  unfold describeScalars
  split
  · rfl
  · exact .ok rfl
  · exact .ok rfl

/-- Whether a literal can be described depends on its options alone. -/
theorem describeLiteral_agrees (options : List Constant) (hint hint' : Option String) :
    AgreeUpTo withoutDescriptions (describeLiteral options hint) (describeLiteral options hint') := by
  unfold describeLiteral
  split
  · exact .ok rfl
  · rfl

/-- A union passes its hint on to its only alternative, so the alternatives must agree for any two
hints. -/
theorem describe_union_agrees {options : List (Option Schema)} {hint hint' : Option String}
    (h : ∀ option, some option ∈ options →
      AgreeUpTo withoutDescriptions (describe (withoutHints option) hint) (describe option hint')) :
    AgreeUpTo withoutDescriptions (describe (.union (optionsWithoutHints options)) hint)
      (describe (.union options) hint') := by
  rw [describe_union_eq, describe_union_eq, only?_withoutHints]
  cases hOnly : only? options with
  | some schema => exact h schema (mem_of_only? hOnly)
  | none =>
      have hScalars : (optionsWithoutHints options).all isScalarOption =
          options.all isScalarOption := by
        rw [optionsWithoutHints_eq_map, List.all_map]
        exact congrArg options.all (funext isScalarOption_withoutHints)
      rw [Option.map_none, hScalars, scalarKinds_withoutHints]
      dsimp only
      split
      · exact describeScalars_agrees _ _ _
      · rfl

/-- The fields are described in their order, and the first that has no document ends the
description. -/
theorem describeFields_cons (object : String) (field : Field Schema) (more : List (Field Schema)) :
    describeFields object (field :: more) =
      (describe field.schema field.hint).mapError (.inField field.name object) >>= fun document =>
        describeFields object more >>= fun rest => .ok ((field.name, document) :: rest) := by
  rw [describeFields]
  cases describe field.schema field.hint <;> rfl

/-- The hint of a field becomes the description of its property. It decides about no failure. -/
theorem describeFields_agrees (name : String) {fields : List (Field Schema)}
    (h : ∀ field ∈ fields, AgreeUpTo withoutDescriptions
      (describe (withoutHints field.schema) none) (describe field.schema field.hint)) :
    AgreeUpTo propertiesWithoutDescriptions (describeFields name (fieldsWithoutHints fields))
      (describeFields name fields) := by
  induction fields with
  | nil => exact .refl _
  | cons field more ih =>
      rw [List.forall_mem_cons] at h
      rw [fieldsWithoutHints, describeFields_cons, describeFields_cons]
      refine (h.1.mapError _).bind fun document document' hDocument => ?_
      refine (ih h.2).bind fun rest rest' hRest => .ok ?_
      rw [propertiesWithoutDescriptions, propertiesWithoutDescriptions, hDocument, hRest]

theorem requiredNames_withoutHints (fields : List (Field Schema)) :
    requiredNames (fieldsWithoutHints fields) = requiredNames fields := by
  rw [fieldsWithoutHints_eq_map, requiredNames, List.filter_map, List.map_map]
  rfl

/-- Objects with the same name and fields that agree have documents that agree, whatever their own
hints are. -/
theorem describeObject_agrees {object object' : ObjectSchema Schema} (hName : object.name = object'.name)
    (hFields : object.fields = fieldsWithoutHints object'.fields)
    (h : ∀ field ∈ object'.fields, AgreeUpTo withoutDescriptions
      (describe (withoutHints field.schema) none) (describe field.schema field.hint))
    (hint hint' : Option String) :
    AgreeUpTo ObjectDocument.withoutDescriptions (describeObject object hint)
      (describeObject object' hint') := by
  rw [describeObject, describeObject, hName, hFields]
  refine (describeFields_agrees object'.name h).bind fun properties properties' hProperties => .ok ?_
  rw [ObjectDocument.withoutDescriptions, ObjectDocument.withoutDescriptions,
    requiredNames_withoutHints, ofPairs_propertiesWithoutDescriptions hProperties]

theorem describe_object (object : ObjectSchema Schema) (hint : Option String) :
    describe (.object object) hint =
      describeObject object hint >>= fun document => .ok (.object document) := by
  rw [describe, describeObject]
  cases describeFields object.name object.fields <;> rfl

/-- Without hints the same schemas have documents, and they differ in their descriptions
only. -/
theorem describe_agrees (schema : Schema) (hint hint' : Option String) :
    AgreeUpTo withoutDescriptions (describe (withoutHints schema) hint) (describe schema hint') := by
  induction schema using Schema.induction generalizing hint hint' with
  | undefined type => exact .refl _
  | primitive kind => exact .ok rfl
  | sequence origin item ih =>
      rw [withoutHints, describe, describe]
      refine (ih none none).bind fun items items' hItems => .ok ?_
      rw [withoutDescriptions, withoutDescriptions, hItems]
  | tuple origin items _ => exact .refl _
  | mapping origin key value _ _ => exact .refl _
  | union options ih => exact describe_union_agrees fun option hm => ih option hm hint hint'
  | literal options => exact describeLiteral_agrees options hint hint'
  | object object ih =>
      rw [withoutHints, describe_object, describe_object]
      have hObject := @describeObject_agrees object.withoutHints object rfl rfl
        (fun field hm => ih field hm _ _) hint hint'
      exact hObject.bind fun document document' hDocument =>
        .ok (congrArg Document.object hDocument)

end Schema

/-- The same holds for tools, whether their long description is asked for or not. -/
theorem CallableSchema.describe_agrees (schema : CallableSchema) (flavor : Flavor)
    (withLong withLong' : Bool) :
    AgreeUpTo ToolDocument.withoutDescriptions (schema.withoutHints.describe flavor withLong)
      (schema.describe flavor withLong') := by
  have hObject := @Schema.describeObject_agrees schema.call.withoutHints
    { schema.call with hint := none } rfl rfl
    (fun field _ => Schema.describe_agrees field.schema _ _) none none
  refine hObject.bind fun parameters parameters' hParameters => .ok ?_
  rw [ToolDocument.withoutDescriptions, ToolDocument.withoutDescriptions, hParameters]
  rfl

end ToolSchema
