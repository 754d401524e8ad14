import ToolSchema.Schema.Basic

/-!
Evaluation of JSON values against schemas. A value is accepted and built, or it is rejected with the
place and the reason; schemas without a way to build values are reported as unsupported.
-/

namespace ToolSchema.Schema

/-- What a schema does with a value at a place. -/
abbrev Evaluator := Path → Json → Except Error Value

def reject {α : Type} (path : Path) (mismatch : Mismatch) : Except Error α :=
  .error (.rejected (.leaf path mismatch))

/-- A scalar accepts values of its own kind, and floats accept every number. -/
def evalScalar (kind : Scalar) : Evaluator := fun path value =>
  match kind, value with
  | .bool, .bool b => .ok (.bool b)
  | .str, .str text => .ok (.str text)
  | .int, value =>
    match value.int64? with
    | some n => .ok (.int n)
    | none => reject path (.notScalar kind value)
  | .float, value =>
    match value.binary64? with
    | some x => .ok (.float x)
    | none => reject path (.notScalar kind value)
  | _, _ => reject path (.notScalar kind value)

/-- Evaluates the items of an array in order, counting from `index`. -/
def evalEach (item : Evaluator) (path : Path) (index : Nat) : List Json → Except Error (List Value)
  | [] => .ok []
  | value :: more => do
    let first ← item (path.child (.index index)) value
    return first :: (← evalEach item path (index + 1) more)

/-- The first option that is the value. -/
def evalLiteral (options : List Constant) : Evaluator := fun path value =>
  match options.find? fun option => option.accepts value with
  | some option => .ok option.toValue
  | none => reject path (.notListed value options)

/-- What came of trying the alternatives of a union. -/
inductive Trial
  | accepted (value : Value)
  /-- The rejections in order, and whether some alternative cannot be evaluated at all. -/
  | failed (causes : List Rejection) (unsupported : Bool)

namespace Trial

def rejectedBy (rejection : Rejection) : Trial → Trial
  | .accepted value => .accepted value
  | .failed causes unsupported => .failed (rejection :: causes) unsupported

def afterUnsupported : Trial → Trial
  | .accepted value => .accepted value
  | .failed causes _ => .failed causes true

end Trial

/-- The result of a union. If no alternative can be evaluated, neither can the union. -/
def concludeUnion (union : String) (path : Path) (value : Json) : Trial → Except Error Value
  | .accepted result => .ok result
  | .failed [] true => .error (.unsupported .evalUnion)
  | .failed causes _ => .error (.rejected (.mk path (.noAlternative value union) causes))

/-! Objects -/

def findField? {α : Type} (fields : List (Field α)) (name : String) : Option (Field α) :=
  fields.find? fun field => field.name == name

/-- Evaluates members in the order in which they come. A later member with the same key takes the
place of an earlier one. -/
def evalMembers (fields : List (Field Evaluator)) (path : Path) (supplied : Entries Value) :
    List (String × Json) → Except Error (Entries Value)
  | [] => .ok supplied
  | (key, item) :: more =>
    match findField? fields key with
    | none => reject path (.unexpectedField key)
    | some field => do
      let value ← field.schema (path.child (.field key)) item
      evalMembers fields path (supplied.insert field.name value) more

/-- The names of required fields that were not supplied, in the order of the fields. -/
def missingFields {α : Type} (fields : List (Field α)) (supplied : Entries Value) : List String :=
  let required := (fields.filter (·.required)).map (·.name)
  (fields.map (·.name)).filter fun name => required.contains name && !supplied.hasKey name

/-- Arranges supplied values into arguments, in the order of the fields. What is passed by position
must not follow a gap. -/
def arrange {α : Type} (positionalOnly : List String) (path : Path) (supplied : Entries Value)
    (gap : Option String) : List (Field α) → Except Error Arguments
  | [] => .ok .empty
  | field :: more =>
    let byPosition := positionalOnly.contains field.name
    match supplied.get? field.name with
    | none =>
      arrange positionalOnly path supplied (if byPosition then gap.or field.name else gap) more
    | some value =>
      if byPosition then
        match gap with
        | some missing => reject path (.positionalGap field.name missing)
        | none => do
          let args ← arrange positionalOnly path (supplied.erase field.name) gap more
          return { args with positional := value :: args.positional }
      else do
        let args ← arrange positionalOnly path (supplied.erase field.name) gap more
        return { args with keyword := (field.name, value) :: args.keyword }

/-- Evaluates the members of an object, arranges them and builds the value. -/
def evalObject (object : ObjectSchema Evaluator) : Evaluator := fun path value =>
  match value with
  | .object members => do
    let supplied ← evalMembers object.fields path [] members
    match missingFields object.fields supplied with
    | [] =>
      let args ← arrange object.positionalOnly path supplied none object.fields
      match object.construct args with
      | .ok result => return result
      | .error refusal => .error (.construction object.name refusal)
    | missing => reject path (.missingFields missing)
  | value => reject path (.notObject value)

mutual

/-- Evaluates a value at a place. -/
def evalAt : Schema → Evaluator
  | .undefined type, _, _ => .error (.unsupported (.evalUndefined type.text))
  | .primitive kind, path, value => evalScalar kind path value
  | .sequence origin item, path, value =>
    match value with
    | .array items => do
      let values ← evalEach (fun path value => evalAt item path value) path 0 items
      return if origin = .tuple then .tuple values else .list values
    | value => reject path (.notArray value)
  | .tuple _ schemas, path, value =>
    match value with
    | .array items =>
      if items.length = schemas.length then do
        return .tuple (← evalItems schemas path 0 items)
      else reject path (.tupleLength schemas.length items.length)
    | value => reject path (.notArray value)
  | .mapping origin _ _, _, _ => .error (.unsupported (.evalMapping origin))
  | .union options, path, value =>
    match value, isOptional options with
    | .null, true => .ok .absent
    | value, _ => do
      concludeUnion (Schema.text (.union options)) path value (← evalOptions options path value)
  | .literal options, path, value => evalLiteral options path value
  | .object ⟨name, construct, hint, positionalOnly, fields⟩, path, value =>
    evalObject ⟨name, construct, hint, positionalOnly, evalFields fields⟩ path value

/-- Evaluates the items of a tuple, each against its own schema. -/
def evalItems : List Schema → Path → Nat → List Json → Except Error (List Value)
  | schema :: schemas, path, index, value :: more => do
    let first ← evalAt schema (path.child (.index index)) value
    return first :: (← evalItems schemas path (index + 1) more)
  | _, _, _, _ => .ok []

/-- Tries alternatives in order. A constructor that refuses ends the trial. -/
def evalOptions : List (Option Schema) → Path → Json → Except Error Trial
  | [], _, _ => .ok (.failed [] false)
  | none :: more, path, value => evalOptions more path value
  | some schema :: more, path, value =>
    match evalAt schema path value with
    | .ok result => .ok (.accepted result)
    | .error (.rejected rejection) =>
      (evalOptions more path value).map (Trial.rejectedBy rejection)
    | .error (.unsupported _) => (evalOptions more path value).map Trial.afterUnsupported
    | .error error => .error error

def evalFields : List (Field Schema) → List (Field Evaluator)
  | [] => []
  | ⟨name, schema, hint, required⟩ :: more =>
    ⟨name, fun path value => evalAt schema path value, hint, required⟩ :: evalFields more

end

def eval (schema : Schema) (value : Json) : Except Error Value := schema.evalAt [] value

end ToolSchema.Schema

namespace ToolSchema.CallableSchema

/-- Evaluates the arguments of a call and calls the constructor. -/
def eval (schema : CallableSchema) (arguments : Json) : Except Error Value :=
  Schema.eval (.object schema.call) arguments

end ToolSchema.CallableSchema
