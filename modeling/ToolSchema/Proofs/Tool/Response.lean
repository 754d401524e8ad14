import ToolSchema.Proofs.Callable.Arguments
import ToolSchema.Proofs.Schema.Places
import ToolSchema.Tool.Response

/-! The tool for answers does what the schema of the answer does with its one argument. Only the
places in rejections show that the answer came inside of an object. -/
namespace ToolSchema

/-- The same report with all its places named from another root. -/
inductive Report.Rerooted (old new : String) : Report → Report → Prop
  | mk {rest message : String} {causes moved : List Report}
      (hCauses : List.Forall₂ (Rerooted old new) causes moved) :
      Rerooted old new (.mk (old ++ rest) message causes) (.mk (new ++ rest) message moved)

namespace Rejection

mutual

/-- A rejection seen from further out is the same report with all its places moved, and so are its
causes. -/
theorem rerooted_under (base : Path) (rejection : Rejection) :
    rejection.report.Rerooted "$" base.text (rejection.under base).report := by
  cases rejection with
  | mk path mismatch causes =>
      rw [under, report, report, Path.text_append]
      exact .mk (rerooted_underAll base causes)

theorem rerooted_underAll (base : Path) (causes : List Rejection) :
    List.Forall₂ (Report.Rerooted "$" base.text) (reports causes)
      (reports (underAll base causes)) := by
  cases causes with
  | nil => exact .nil
  | cons cause more => exact .cons (rerooted_under base cause) (rerooted_underAll base more)

end

end Rejection

namespace Response

open Except (mapError_eq_ok_iff mapError_eq_error_iff)

/-- An object whose only key is the one of the answer. -/
def IsResponse (value : Json) : Prop :=
  ∃ members, value = .object members ∧ ∀ key, key ∈ Entries.keys members ↔ key = fieldName

/-- The constructor gives back what the one field was evaluated to. -/
theorem evalAt_toolSchema (answer : Schema) (path : Path) (value : Json) :
    Schema.evalAt (.object (toolSchema answer)) path (.object [(fieldName, value)]) =
      Schema.evalAt answer (path.child (.field fieldName)) value := by
  rw [Schema.evalAt_object, Schema.evalObject_members]
  have hMembers : Schema.evalMembers ((toolSchema answer).map Schema.evalAt).fields path []
      [(fieldName, value)] = Schema.evalAt answer (path.child (.field fieldName)) value >>=
        fun result => .ok [(fieldName, result)] := rfl
  have hFinish (result : Value) : Schema.finish ((toolSchema answer).map Schema.evalAt) path
      [(fieldName, result)] = .ok result := rfl
  rw [hMembers]
  cases Schema.evalAt answer (path.child (.field fieldName)) value with
  | error error => rfl
  | ok result => exact hFinish result

/-- The outcome is the one for the answer by itself, seen from further out. -/
theorem eval_toolSchema (answer : Schema) (value : Json) :
    Schema.eval (.object (toolSchema answer)) (.object [(fieldName, value)]) =
      (answer.eval value).mapError (Error.under [.field fieldName]) := by
  rw [Schema.eval, evalAt_toolSchema]
  exact Schema.rooted_evalAt answer [.field fieldName] [] value

/-- Nothing else comes to the point where the constructor would be called. -/
theorem exists_error_of_not_isResponse (answer : Schema) {value : Json} (h : ¬ IsResponse value) :
    ∃ error, ∀ construct,
      Schema.eval (.object { toolSchema answer with construct := construct }) value =
        .error error := by
  cases value with
  | object members =>
      cases hValidated : (toolSchema answer).validated [] members with
      | error error =>
          refine ⟨error, fun construct => ?_⟩
          rw [Schema.eval, ObjectSchema.evalAt_eq_validated_bind,
            ObjectSchema.validated_with_construct, hValidated]
          rfl
      | ok args =>
          have hDistinct : (toolSchema answer).DistinctNames := List.nodup_singleton _
          obtain ⟨values, hValues, hRequired, -⟩ :=
            (ObjectSchema.validated_eq_ok_iff hDistinct [] members args).mp hValidated
          refine absurd ⟨members, rfl, fun key => ⟨fun hKey => ?_, ?_⟩⟩ h
          · obtain ⟨member, hMember, rfl⟩ := List.mem_map.mp hKey
            obtain ⟨_, _, field, hField, hName, _⟩ := hValues.exists_right hMember
            rw [← hName, List.mem_singleton.mp hField]
          · rintro rfl
            exact hRequired _ List.mem_cons_self rfl
  | _ => exact ⟨_, fun _ => rfl⟩

/-- With an answer under its one key the tool accepts what the schema of the answer accepts, and
gives the same. Its rejections are those of the answer with the place of the answer as their root,
and all other failures are the same. Every other value is refused before the constructor. -/
theorem tool_is_transparent {answer : Schema} (hAnswer : answer ≠ .primitive .str) :
    ∃ tool, schema? answer = some tool ∧
      (∀ value result, tool.eval (.object [("response", value)]) = .ok result ↔
        answer.eval value = .ok result) ∧
      (∀ value rejection, answer.eval value = .error (.rejected rejection) →
        ∃ moved, tool.eval (.object [("response", value)]) = .error (.rejected moved) ∧
          rejection.report.Rerooted "$" "$.response" moved.report) ∧
      (∀ value error, (∀ rejection, error ≠ .rejected rejection) →
        (tool.eval (.object [("response", value)]) = .error error ↔
          answer.eval value = .error error)) ∧
      ∀ value, ¬ IsResponse value → ∃ error, tool.eval value = .error error ∧
        ∀ construct, Schema.eval (.object { tool.call with construct := construct }) value =
          .error error := by
  have hEval (value : Json) : CallableSchema.eval ⟨toolSchema answer, .object (toolSchema answer),
      none⟩ (.object [("response", value)]) =
        (answer.eval value).mapError (Error.under [.field fieldName]) :=
    eval_toolSchema answer value
  refine ⟨⟨toolSchema answer, .object (toolSchema answer), none⟩, ?_, ?_, ?_, ?_, ?_⟩
  · rw [schema?]
    exact hAnswer
  · intro value result
    rw [hEval, mapError_eq_ok_iff]
  · intro value rejection h
    rw [hEval, h]
    exact ⟨_, rfl, rejection.rerooted_under [.field fieldName]⟩
  · intro value error hOther
    rw [hEval, mapError_eq_error_iff]
    constructor
    · rintro ⟨inner, hInner, rfl⟩
      cases inner with
      | rejected rejection => exact absurd rfl (hOther _)
      | _ => exact hInner
    · intro h
      refine ⟨error, h, ?_⟩
      cases error with
      | rejected rejection => exact absurd rfl (hOther rejection)
      | _ => rfl
  · intro value h
    obtain ⟨error, hError⟩ := exists_error_of_not_isResponse answer h
    exact ⟨error, hError construct, hError⟩

/-- A list of integers is given back, and a text among them is rejected at its place in the
argument. -/
theorem tool_is_transparent_for_list :
    ∃ tool, schema? (.sequence .list (.primitive .int)) = some tool ∧
      tool.eval (.object [("response", .array [.int 3])]) = .ok (.list [.int 3]) ∧
      ∃ moved, tool.eval (.object [("response", .array [.int 3, .str "x"])]) =
          .error (.rejected moved) ∧
        (Rejection.leaf [.index 1] (.notScalar .int (.str "x"))).report.Rerooted "$" "$.response"
          moved.report := by
  obtain ⟨tool, hTool, hOk, hRejected, -⟩ :=
    @tool_is_transparent (.sequence .list (.primitive .int)) nofun
  exact ⟨tool, hTool, (hOk _ _).mpr rfl, hRejected _ _ rfl⟩

end Response

end ToolSchema
