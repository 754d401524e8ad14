import ToolSchema.Schema.Evaluation

/-! Induction over schemas, with one hypothesis for each schema directly
below, and conditions on all objects inside a schema. -/
namespace ToolSchema

/-- The same field with what becomes of its schema. -/
def Field.map {α β : Type} (f : α → β) (field : Field α) : Field β :=
  ⟨field.name, f field.schema, field.hint, field.required⟩

/-- The same object with what becomes of the schemas of its fields. -/
def ObjectSchema.map {α β : Type} (f : α → β) (object : ObjectSchema α) : ObjectSchema β :=
  ⟨object.name, object.construct, object.hint, object.positionalOnly, object.fields.map (Field.map f)⟩

namespace Schema

/-- The recursor of the nested type, with lists of children read as
membership. Keys and values of mappings are children as well. -/
@[elab_as_elim]
theorem induction {motive : Schema → Prop}
    (undefined : ∀ type, motive (.undefined type))
    (primitive : ∀ kind, motive (.primitive kind))
    (sequence : ∀ origin item, motive item → motive (.sequence origin item))
    (tuple : ∀ origin items, (∀ item ∈ items, motive item) → motive (.tuple origin items))
    (mapping : ∀ origin key value, motive key → motive value → motive (.mapping origin key value))
    (union : ∀ options, (∀ option, some option ∈ options → motive option) →
      motive (.union options))
    (literal : ∀ options, motive (.literal options))
    (object : ∀ object : ObjectSchema Schema, (∀ field ∈ object.fields, motive field.schema) →
      motive (.object object)) (schema : Schema) : motive schema :=
  @Schema.rec motive
    (fun items => ∀ item ∈ items, motive item)
    (fun options => ∀ option, some option ∈ options → motive option)
    (fun object => ∀ field ∈ object.fields, motive field.schema)
    (fun option => ∀ schema, option = some schema → motive schema)
    (fun fields => ∀ field ∈ fields, motive field.schema)
    (fun field => motive field.schema)
    undefined primitive sequence tuple mapping union literal object
    (fun _ hm => nomatch hm)
    (fun _ _ hItem hItems => List.forall_mem_cons.mpr ⟨hItem, hItems⟩)
    (fun _ hm => nomatch hm)
    (fun _ _ hOption hOptions option hm =>
      (List.mem_cons.mp hm).elim (fun he => hOption option he.symm) (hOptions option))
    (fun _ _ _ _ _ hFields => hFields)
    (fun _ he => nomatch he)
    (fun _ hSchema _ he => Option.some.inj he ▸ hSchema)
    (fun _ hm => nomatch hm)
    (fun _ _ hField hFields => List.forall_mem_cons.mpr ⟨hField, hFields⟩)
    (fun _ _ _ _ hSchema => hSchema)
    schema

/-- Every object inside the schema, at any depth, meets the condition. -/
inductive Everywhere (condition : ObjectSchema Schema → Prop) : Schema → Prop
  | undefined (type : TypeExpr) : Everywhere condition (.undefined type)
  | primitive (kind : Scalar) : Everywhere condition (.primitive kind)
  | sequence {origin : Origin} {item : Schema} (hItem : Everywhere condition item) :
      Everywhere condition (.sequence origin item)
  | tuple {origin : Origin} {items : List Schema}
      (hItems : ∀ item ∈ items, Everywhere condition item) :
      Everywhere condition (.tuple origin items)
  | mapping {origin : Origin} {key value : Schema} (hKey : Everywhere condition key)
      (hValue : Everywhere condition value) : Everywhere condition (.mapping origin key value)
  | union {options : List (Option Schema)}
      (hOptions : ∀ option, some option ∈ options → Everywhere condition option) :
      Everywhere condition (.union options)
  | literal (options : List Constant) : Everywhere condition (.literal options)
  | object {object : ObjectSchema Schema} (hObject : condition object)
      (hFields : ∀ field ∈ object.fields, Everywhere condition field.schema) :
      Everywhere condition (.object object)

/-- A weaker condition holds everywhere too. -/
theorem Everywhere.imp {p q : ObjectSchema Schema → Prop} (hImp : ∀ object, p object → q object)
    {schema : Schema} (h : schema.Everywhere p) : schema.Everywhere q := by
  induction h with
  | undefined type => exact .undefined type
  | primitive kind => exact .primitive kind
  | sequence _ ih => exact .sequence ih
  | tuple _ ih => exact .tuple ih
  | mapping _ _ ihKey ihValue => exact .mapping ihKey ihValue
  | union _ ih => exact .union ih
  | literal options => exact .literal options
  | object hObject _ ih => exact .object (hImp _ hObject) ih

theorem everywhere_of_forall {condition : ObjectSchema Schema → Prop} (schema : Schema)
    (h : ∀ object, condition object) : schema.Everywhere condition := by
  induction schema using Schema.induction with
  | undefined type => exact .undefined type
  | primitive kind => exact .primitive kind
  | sequence _ _ ih => exact .sequence ih
  | tuple _ _ ih => exact .tuple ih
  | mapping _ _ _ ihKey ihValue => exact .mapping ihKey ihValue
  | union _ ih => exact .union ih
  | literal options => exact .literal options
  | object object ih => exact .object (h object) ih

end Schema

/-- No two fields have the same name. -/
def ObjectSchema.DistinctNames (object : ObjectSchema Schema) : Prop :=
  (object.fields.map (·.name)).Nodup

/-- The constructor accepts all arguments. -/
def ObjectSchema.Total (object : ObjectSchema Schema) : Prop :=
  ∀ args, ∃ result, object.construct args = .ok result

end ToolSchema
