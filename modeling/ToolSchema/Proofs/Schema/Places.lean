import ToolSchema.Proofs.Schema.Objects

/-! Evaluation somewhere inside a value. It does not depend on the place, apart
from the places that rejections name. -/
namespace ToolSchema

/-- A step taken below a longer path is the step taken below its last part. -/
theorem Path.append_child (base path : Path) (step : Step) :
    Path.child (base ++ path) step = base ++ Path.child path step :=
  List.append_assoc ..

/-- The text of a path is written from left to right, so the text of a longer path begins with that
of the shorter one. -/
theorem Path.text_append (path steps : Path) :
    Path.text (path ++ steps) = path.text ++ String.join (steps.map Step.text) := by
  simp [Path.text, String.join_append, String.append_assoc]

namespace Rejection

mutual

/-- The rejection as it looks from further out, with its causes. -/
def under (base : Path) : Rejection → Rejection
  | .mk path mismatch causes => .mk (base ++ path) mismatch (underAll base causes)

def underAll (base : Path) : List Rejection → List Rejection
  | [] => []
  | cause :: more => under base cause :: underAll base more

end

end Rejection

/-- The failure as it looks from further out. Only rejections name places. -/
def Error.under (base : Path) : Error → Error
  | .rejected rejection => .rejected (rejection.under base)
  | error => error

namespace Schema

def Trial.under (base : Path) : Trial → Trial
  | .accepted value => .accepted value
  | .failed causes unsupported => .failed (Rejection.underAll base causes) unsupported

/-- The evaluator does the same at every place. -/
def Rooted (run : Evaluator) : Prop :=
  ∀ base path value, run (base ++ path) value = (run path value).mapError (Error.under base)

/-- A scalar is judged by its value alone. The path only goes into the rejection. -/
theorem rooted_evalScalar (kind : Scalar) : Rooted (evalScalar kind) := by
  intro base path value
  cases kind with
  | int =>
      simp only [evalScalar]
      split <;> rfl
  | float =>
      simp only [evalScalar]
      split <;> rfl
  | str => cases value <;> rfl
  | bool => cases value <;> rfl

theorem rooted_evalLiteral (options : List Constant) : Rooted (evalLiteral options) := by
  intro base path value
  rw [evalLiteral, evalLiteral]
  split <;> rfl

/-- The numbering of the items goes on below the longer path as it does below the shorter one. -/
theorem evalEach_append {item : Evaluator} (hItem : Rooted item) (base path : Path) (index : Nat)
    (values : List Json) :
    evalEach item (base ++ path) index values =
      (evalEach item path index values).mapError (Error.under base) := by
  induction values generalizing index with
  | nil => rfl
  | cons value more ih =>
      rw [evalEach, evalEach, Path.append_child, hItem, Except.mapError_bind]
      refine congrArg _ (funext fun first => ?_)
      rw [ih, Except.mapError_bind]
      rfl

theorem evalItems_append {schemas : List Schema}
    (hSchemas : ∀ schema ∈ schemas, Rooted (evalAt schema)) (base path : Path) (index : Nat)
    (items : List Json) :
    evalItems schemas (base ++ path) index items =
      (evalItems schemas path index items).mapError (Error.under base) := by
  induction schemas generalizing index items with
  | nil => cases items <;> rfl
  | cons schema schemas ih =>
      rw [List.forall_mem_cons] at hSchemas
      cases items with
      | nil => rfl
      | cons value more =>
          rw [evalItems, evalItems, Path.append_child, hSchemas.1, Except.mapError_bind]
          refine congrArg _ (funext fun first => ?_)
          rw [ih hSchemas.2, Except.mapError_bind]
          rfl

theorem rooted_sequence {origin : Origin} {item : Schema} (hItem : Rooted (evalAt item)) :
    Rooted (evalAt (.sequence origin item)) := by
  intro base path value
  cases value with
  | array items =>
      rw [evalAt, evalAt, evalEach_append hItem, Except.mapError_bind]
      rfl
  | _ => rfl

theorem rooted_tuple {origin : Origin} {schemas : List Schema}
    (hSchemas : ∀ schema ∈ schemas, Rooted (evalAt schema)) :
    Rooted (evalAt (.tuple origin schemas)) := by
  intro base path value
  cases value with
  | array items =>
      rw [evalAt, evalAt]
      split
      · rw [evalItems_append hSchemas, Except.mapError_bind]
        rfl
      · rfl
  | _ => rfl

/-! Unions -/

/-- Causes that are collected further out are the collected causes seen from further out. -/
theorem Trial.rejectedBy_under (base : Path) (rejection : Rejection) (trial : Trial) :
    (trial.rejectedBy rejection).under base =
      (trial.under base).rejectedBy (rejection.under base) := by
  cases trial <;> rfl

theorem Trial.afterUnsupported_under (base : Path) (trial : Trial) :
    trial.afterUnsupported.under base = (trial.under base).afterUnsupported := by
  cases trial <;> rfl

/-- All alternatives are tried at the place of the union itself, so moving the union moves every
cause that is collected. -/
theorem evalOptions_append {options : List (Option Schema)}
    (hOptions : ∀ option, some option ∈ options → Rooted (evalAt option)) (base path : Path)
    (value : Json) :
    evalOptions options (base ++ path) value =
      ((evalOptions options path value).mapError (Error.under base)).map (Trial.under base) := by
  induction options with
  | nil => rfl
  | cons option more ih =>
      have ih := ih fun option hm => hOptions option (List.mem_cons_of_mem _ hm)
      cases option with
      | none =>
          rw [evalOptions, evalOptions]
          exact ih
      | some schema =>
          have hMap {f g : Trial → Trial}
              (h : ∀ trial, f (trial.under base) = (g trial).under base) :
              (evalOptions more (base ++ path) value).map f =
                (((evalOptions more path value).map g).mapError (Error.under base)).map
                  (Trial.under base) := by
            rw [ih]
            cases evalOptions more path value with
            | error error => rfl
            | ok trial => exact congrArg Except.ok (h trial)
          rw [evalOptions, evalOptions, hOptions schema List.mem_cons_self]
          cases hSchema : evalAt schema path value with
          | ok result => rfl
          | error error =>
              cases error with
              | rejected rejection =>
                  exact hMap fun trial => (Trial.rejectedBy_under base rejection trial).symm
              | unsupported obstacle =>
                  exact hMap fun trial => (Trial.afterUnsupported_under base trial).symm
              | _ => rfl

theorem concludeUnion_append (union : String) (base path : Path) (value : Json) (trial : Trial) :
    concludeUnion union (base ++ path) value (trial.under base) =
      (concludeUnion union path value trial).mapError (Error.under base) := by
  rcases trial with accepted | ⟨_ | _, _ | _⟩ <;> rfl

theorem rooted_union {options : List (Option Schema)}
    (hOptions : ∀ option, some option ∈ options → Rooted (evalAt option)) :
    Rooted (evalAt (.union options)) := by
  intro base path value
  by_cases hNull : value = .null ∧ none ∈ options
  · obtain ⟨rfl, hNone⟩ := hNull
    rw [evalAt_union_null hNone, evalAt_union_null hNone]
    rfl
  · rw [evalAt_union_of_not_null hNull, evalAt_union_of_not_null hNull,
      evalOptions_append hOptions, Except.mapError_bind]
    cases evalOptions options path value with
    | error error => rfl
    | ok trial => exact concludeUnion_append _ base path value trial

/-! Objects -/

/-- Each member is evaluated one step below the object. What it supplies does not name a place. -/
theorem evalMembers_append {fields : List (Field Evaluator)}
    (hFields : ∀ field ∈ fields, Rooted field.schema) (base path : Path)
    (supplied : Entries Value) (members : List (String × Json)) :
    evalMembers fields (base ++ path) supplied members =
      (evalMembers fields path supplied members).mapError (Error.under base) := by
  induction members generalizing supplied with
  | nil => rfl
  | cons member more ih =>
      obtain ⟨key, item⟩ := member
      rw [evalMembers, evalMembers]
      split
      · rfl
      · next field hField =>
        rw [Path.append_child, hFields field (List.mem_of_find?_eq_some hField),
          Except.mapError_bind]
        exact congrArg _ (funext fun first => ih _)

/-- Putting the supplied values in order can only fail at the place of the object. -/
theorem arrange_append {α : Type} (positionalOnly : List String) (base path : Path)
    (supplied : Entries Value) (gap : Option String) (fields : List (Field α)) :
    arrange positionalOnly (base ++ path) supplied gap fields =
      (arrange positionalOnly path supplied gap fields).mapError (Error.under base) := by
  induction fields generalizing supplied gap with
  | nil => rfl
  | cons field more ih =>
      rw [arrange, arrange]
      split
      · exact ih _ _
      · split
        · split
          · rfl
          · rw [ih, Except.mapError_bind]
            rfl
        · rw [ih, Except.mapError_bind]
          rfl

/-- Members, missing fields and gaps name places below the object. A refusal by the constructor
names none, and stays as it is. -/
theorem rooted_evalObject {object : ObjectSchema Evaluator}
    (hFields : ∀ field ∈ object.fields, Rooted field.schema) : Rooted (evalObject object) := by
  intro base path value
  cases value with
  | object members =>
      rw [evalObject, evalObject, evalMembers_append hFields, Except.mapError_bind]
      refine congrArg _ (funext fun supplied => ?_)
      split
      · rw [arrange_append, Except.mapError_bind]
        refine congrArg _ (funext fun args => ?_)
        cases object.construct args <;> rfl
      · rfl
  | _ => rfl

/-- Evaluation at an inner place does what it does at the root, and its
rejections name the places below the inner one. -/
theorem rooted_evalAt (schema : Schema) : Rooted (evalAt schema) := by
  induction schema using Schema.induction with
  | undefined type => exact fun _ _ _ => rfl
  | primitive kind => exact rooted_evalScalar kind
  | sequence _ _ ih => exact rooted_sequence ih
  | tuple _ _ ih => exact rooted_tuple ih
  | mapping _ _ _ _ _ => exact fun _ _ _ => rfl
  | union _ ih => exact rooted_union ih
  | literal options => exact rooted_evalLiteral options
  | object object ih =>
      intro base path value
      rw [evalAt_object, evalAt_object]
      refine rooted_evalObject (fun field hm => ?_) base path value
      obtain ⟨inner, hInner, rfl⟩ := List.mem_map.mp hm
      exact ih inner hInner

/-- What is built from a value inside another one is what is built from it alone. -/
theorem evalAt_eq_ok_iff_eval (schema : Schema) (path : Path) (value : Json) (result : Value) :
    evalAt schema path value = .ok result ↔ eval schema value = .ok result := by
  have hPath := rooted_evalAt schema path [] value
  rw [List.append_nil] at hPath
  rw [hPath, Except.mapError_eq_ok_iff, eval]

end Schema

end ToolSchema
