import ToolSchema.Proofs.Schema.Obstacles
import ToolSchema.Tool.Toolbox

/-! Toolboxes whose tools are declared to a model before they are called. -/
namespace ToolSchema

open Except (bind_eq_ok_iff mapError_eq_ok_iff mapM_eq_ok_iff)

/-- The document of a tool is that of its parameters, so they can be used. -/
theorem CallableSchema.usable_of_describe {tool : CallableSchema} {flavor : Flavor}
    {withLong : Bool} {document : ToolDocument} (h : tool.describe flavor withLong = .ok document) :
    Schema.Usable (.object tool.call) := by
  obtain ⟨parameters, hParameters, _⟩ := bind_eq_ok_iff.mp h
  obtain ⟨properties, hProperties, _⟩ := bind_eq_ok_iff.mp hParameters
  refine Schema.usable_object fun field hm => ?_
  obtain ⟨property, _, _, hField⟩ := (Schema.describeFields_ok hProperties).exists_right hm
  exact Schema.usable_of_describe hField

namespace Toolbox

/-- Every tool of a toolbox that can be declared has a document of its own. -/
theorem exists_describe_of_get? {box : Toolbox} {flavor : Flavor} {withLong : Bool}
    {documents : List ToolDocument} (h : box.describe flavor withLong = .ok documents)
    {name : String} {tool : CallableSchema} (hTool : box.get? name = some tool) :
    ∃ document, tool.describe flavor withLong = .ok document := by
  have hAll := mapM_eq_ok_iff.mp (mapError_eq_ok_iff.mp h)
  obtain ⟨document, _, hDocument⟩ := hAll.exists_right (Entries.mem_of_get? hTool)
  exact ⟨document, hDocument⟩

/-- A call of a tool that was declared comes to an outcome, or a constructor refuses
its arguments. No call fails because a schema cannot be used. -/
theorem invoke_of_describe {box : Toolbox} {flavor : Flavor} {withLong : Bool}
    {documents : List ToolDocument} (h : box.describe flavor withLong = .ok documents)
    (name : String) (arguments : Json) :
    (∃ outcome, box.invoke name arguments = .ok outcome) ∨
      ∃ owner refusal, box.invoke name arguments = .error (.construction owner refusal) := by
  rw [invoke]
  split
  · exact .inl ⟨_, rfl⟩
  · next tool hTool =>
    obtain ⟨document, hDocument⟩ := exists_describe_of_get? h hTool
    cases hEval : tool.eval arguments with
    | ok value => exact .inl ⟨_, rfl⟩
    | error error =>
        rcases Schema.evalAt_error_mild_or_construction hEval with
          (⟨rejection, rfl⟩ | ⟨obstacle, rfl⟩) | ⟨owner, refusal, rfl⟩
        · exact .inl ⟨_, rfl⟩
        · exact absurd hEval (CallableSchema.usable_of_describe hDocument [] arguments obstacle)
        · exact .inr ⟨owner, refusal, rfl⟩

/-- A tool for a date and an optional number, called without the date and with a text for the
number. -/
theorem invoke_of_described_visit :
    (∃ outcome, (⟨[("visit", ⟨⟨"visit", .record "visit" [], none, [],
        [⟨"day", .object (Strategy.temporalSchema "date" .date).call, none, true⟩,
          ⟨"guests", .union [some (.primitive .int), none], none, false⟩]⟩, .undefined .null,
        none⟩)]⟩ : Toolbox).invoke "visit" (.object [("guests", .str "two")]) = .ok outcome) ∨
      ∃ owner refusal, (⟨[("visit", ⟨⟨"visit", .record "visit" [], none, [],
        [⟨"day", .object (Strategy.temporalSchema "date" .date).call, none, true⟩,
          ⟨"guests", .union [some (.primitive .int), none], none, false⟩]⟩, .undefined .null,
        none⟩)]⟩ : Toolbox).invoke "visit" (.object [("guests", .str "two")]) =
          .error (.construction owner refusal) :=
  @invoke_of_describe _ .openai true _ rfl "visit" (.object [("guests", .str "two")])

end Toolbox

end ToolSchema
