import ToolSchema.Proofs.Distinct
import ToolSchema.Proofs.Tool.Toolbox

/-! What a toolbox holds after tools were added to it one after the other. An
addition fails if there is a tool with the same name, and then nothing changes. -/
namespace ToolSchema

open Except (bind_eq_ok_iff mapError_eq_ok_iff mapM_eq_ok_iff)

theorem CallableSchema.name_of_describe {tool : CallableSchema} {flavor : Flavor}
    {withLong : Bool} {document : ToolDocument} (h : tool.describe flavor withLong = .ok document) :
    document.name = tool.name := by
  obtain ⟨parameters, -, hDocument⟩ := bind_eq_ok_iff.mp h
  cases hDocument
  rfl

namespace Toolbox

/-- The toolbox after one more addition. One that fails leaves it as it is. -/
def after (box : Toolbox) (tool : CallableSchema) : Toolbox :=
  match box.add tool with
  | .ok larger => larger
  | .error _ => box

/-- The toolbox after additions to an empty one. -/
def afterAll (tools : List CallableSchema) : Toolbox := tools.foldl after empty

/-- The tool that comes first under a name. -/
def first? (tools : List CallableSchema) (name : String) : Option CallableSchema :=
  tools.find? fun tool => tool.name == name

variable {box : Toolbox} {tools : List CallableSchema} {tool : CallableSchema}

theorem first?_eq_none_iff (tools : List CallableSchema) (name : String) :
    first? tools name = none ↔ name ∉ tools.map (·.name) := by
  simp [first?]

theorem name_of_first? {name : String} (h : first? tools name = some tool) : tool.name = name := by
  simpa using List.find?_some h

/-- An addition under a name that is taken fails, and one under a new name comes at the end. -/
theorem add_of_mem (h : tool.name ∈ box.names) :
    box.add tool = .error (.declaration (.duplicateTool tool.name)) :=
  if_pos ((Entries.hasKey_iff _ _).mpr h)

theorem add_of_not_mem (h : tool.name ∉ box.names) :
    box.add tool = .ok ⟨box.tools ++ [(tool.name, tool)]⟩ :=
  if_neg (mt (Entries.hasKey_iff _ _).mp h)

theorem after_of_mem (h : tool.name ∈ box.names) : box.after tool = box := by
  rw [after, add_of_mem h]

theorem after_of_not_mem (h : tool.name ∉ box.names) :
    box.after tool = ⟨box.tools ++ [(tool.name, tool)]⟩ := by
  rw [after, add_of_not_mem h]

/-- The toolbox holds the first of these tools under each of their names, and the
names are in the order of these first tools. -/
structure Holds (tools : List CallableSchema) (box : Toolbox) : Prop where
  names : box.names = (tools.map (·.name)).eraseDups
  found : ∀ name, box.get? name = first? tools name

/-- A further tool comes first only under a name that no earlier one has. -/
theorem first?_concat (tools : List CallableSchema) (tool : CallableSchema) (name : String) :
    first? (tools ++ [tool]) name =
      (first? tools name).or (if tool.name = name then some tool else none) := by
  simp [first?]

theorem eraseDups_names_concat (tools : List CallableSchema) (tool : CallableSchema) :
    ((tools ++ [tool]).map (·.name)).eraseDups =
      if tool.name ∈ (tools.map (·.name)).eraseDups then (tools.map (·.name)).eraseDups
      else (tools.map (·.name)).eraseDups ++ [tool.name] := by
  simp [List.eraseDups_concat]

/-- One more tool changes what is held only if its name is new. -/
theorem Holds.after (h : Holds tools box) (tool : CallableSchema) :
    Holds (tools ++ [tool]) (box.after tool) := by
  have hNames := eraseDups_names_concat tools tool
  rw [← h.names] at hNames
  by_cases hm : tool.name ∈ box.names
  · rw [if_pos hm] at hNames
    rw [after_of_mem hm]
    refine ⟨hNames.symm, fun name => ?_⟩
    rw [first?_concat, ← h.found]
    by_cases hName : tool.name = name
    · -- Some tool is found under the name already, and it comes first.
      obtain ⟨held, hHeld⟩ := Option.isSome_iff_exists.mp
        ((Entries.get?_isSome_iff _ _).mpr (hName ▸ hm))
      rw [show box.get? name = some held from hHeld, Option.some_or]
    · rw [if_neg hName, Option.or_none]
  · rw [if_neg hm] at hNames
    rw [after_of_not_mem hm]
    refine ⟨(Entries.keys_append _ _).trans hNames.symm, fun name => ?_⟩
    rw [first?_concat, ← h.found, get?, Entries.get?_append, Entries.get?_cons]
    rfl

/-- By induction on the additions, the last one at the end. -/
theorem holds_afterAll (tools : List CallableSchema) : Holds tools (afterAll tools) := by
  induction tools using List.reverseRecOn with
  | nil => exact ⟨rfl, fun _ => rfl⟩
  | append_singleton tools tool ih =>
      rw [afterAll, List.foldl_append]
      exact ih.after tool

example : (afterAll [Strategy.temporalSchema "day" .date, Strategy.temporalSchema "clock" .time,
    Strategy.temporalSchema "day" .duration]).names = ["day", "clock"] := by decide

theorem Holds.names_nodup (h : Holds tools box) : box.names.Nodup := by
  rw [h.names]
  refine (List.pairwise_eraseDups _).imp fun hOther he => ?_
  simp [he] at hOther

/-- What is described is what is held, in the same order. -/
theorem Holds.describe (h : Holds tools box) {flavor : Flavor} {withLong : Bool}
    {documents : List ToolDocument} (hDescribe : box.describe flavor withLong = .ok documents) :
    List.Forall₂ (fun name document => ∃ tool, first? tools name = some tool ∧
      tool.describe flavor withLong = .ok document) box.names documents := by
  have hAll := mapM_eq_ok_iff.mp (mapError_eq_ok_iff.mp hDescribe)
  have hHeld : ∀ entry ∈ box.tools, first? tools entry.1 = some entry.2 := by
    intro entry hm
    rw [← h.found]
    exact (Entries.get?_eq_some_iff h.names_nodup _ _).mpr hm
  change List.Forall₂ _ (box.tools.map (·.1)) documents
  rw [List.forall₂_map_left_iff]
  refine ((List.forall₂_and_left _ _).mpr ⟨hHeld, hAll⟩).imp fun entry document hEntry => ?_
  exact ⟨entry.2, hEntry⟩

/-- Everything that a call can come to. -/
inductive Called (box : Toolbox) (name : String) (arguments : Json) : Except Error Outcome → Prop
  | unknown (h : box.get? name = none) :
      Called box name arguments (.ok (.rejected (.leaf [] (.unknownTool name))))
  | final {tool : CallableSchema} {value : Value} (h : box.get? name = some tool)
      (hEval : tool.eval arguments = .ok value) (hFinal : name = Response.toolName) :
      Called box name arguments (.ok (.final value))
  | completed {tool : CallableSchema} {value : Value} (h : box.get? name = some tool)
      (hEval : tool.eval arguments = .ok value) (hOther : name ≠ Response.toolName) :
      Called box name arguments (.ok (.completed value))
  | rejected {tool : CallableSchema} {rejection : Rejection} (h : box.get? name = some tool)
      (hEval : tool.eval arguments = .error (.rejected rejection)) :
      Called box name arguments (.ok (.rejected rejection))
  | failed {tool : CallableSchema} {error : Error} (h : box.get? name = some tool)
      (hEval : tool.eval arguments = .error error) (hOther : ∀ rejection, error ≠ .rejected rejection) :
      Called box name arguments (.error error)

/-- A call has one of these outcomes, by the tool that is found and what it makes of the
arguments. -/
theorem called (box : Toolbox) (name : String) (arguments : Json) :
    Called box name arguments (box.invoke name arguments) := by
  unfold invoke
  split
  · next hTool => exact .unknown hTool
  · next tool hTool =>
    split
    · next value hEval =>
      split
      · next hFinal => exact .final hTool hEval hFinal
      · next hOther => exact .completed hTool hEval hOther
    · next rejection hEval => exact .rejected hTool hEval
    · next error hOther hEval => exact .failed hTool hEval hOther

section

variable (box) (name : String) (arguments : Json)

/-- When each outcome comes about. A rejection is that of the tool, or there is no tool. -/
theorem invoke_eq_rejected_iff (rejection : Rejection) :
    box.invoke name arguments = .ok (.rejected rejection) ↔
      (box.get? name = none ∧ .leaf [] (.unknownTool name) = rejection) ∨
        ∃ tool, box.get? name = some tool ∧ tool.eval arguments = .error (.rejected rejection) := by
  have hCalled := box.called name arguments
  generalize box.invoke name arguments = result at hCalled
  cases hCalled <;> grind

/-- The answer is final if it comes from the tool for answers. -/
theorem invoke_eq_final_iff (value : Value) :
    box.invoke name arguments = .ok (.final value) ↔ name = Response.toolName ∧
      ∃ tool, box.get? name = some tool ∧ tool.eval arguments = .ok value := by
  have hCalled := box.called name arguments
  generalize box.invoke name arguments = result at hCalled
  cases hCalled <;> grind

theorem invoke_eq_completed_iff (value : Value) :
    box.invoke name arguments = .ok (.completed value) ↔ name ≠ Response.toolName ∧
      ∃ tool, box.get? name = some tool ∧ tool.eval arguments = .ok value := by
  have hCalled := box.called name arguments
  generalize box.invoke name arguments = result at hCalled
  cases hCalled <;> grind

theorem invoke_eq_error_iff (error : Error) :
    box.invoke name arguments = .error error ↔ (∀ rejection, error ≠ .rejected rejection) ∧
      ∃ tool, box.get? name = some tool ∧ tool.eval arguments = .error error := by
  have hCalled := box.called name arguments
  generalize box.invoke name arguments = result at hCalled
  cases hCalled <;> grind

end

/-- The toolbox is a map from names to the tools that were added first under them, in the order
of these additions. -/
structure KeepsFirst (tools : List CallableSchema) (box : Toolbox) : Prop where
  names : box.names = (tools.map (·.name)).eraseDups
  distinct : box.names.Nodup
  found : ∀ name, box.get? name = first? tools name
  added : ∀ tool, (∃ larger, box.add tool = .ok larger) ↔ tool.name ∉ box.names
  /-- An addition that fails could as well not have been tried, whatever comes later. -/
  refused : ∀ tool, tool.name ∈ box.names →
    box.add tool = .error (.declaration (.duplicateTool tool.name)) ∧
      ∀ later, afterAll (tools ++ tool :: later) = afterAll (tools ++ later)
  described : ∀ flavor withLong documents, box.describe flavor withLong = .ok documents →
    documents.map (·.name) = box.names ∧
      List.Forall₂ (fun name document => ∃ tool, first? tools name = some tool ∧
        tool.describe flavor withLong = .ok document) box.names documents
  rejected : ∀ name arguments rejection, box.invoke name arguments = .ok (.rejected rejection) ↔
    (name ∉ tools.map (·.name) ∧ .leaf [] (.unknownTool name) = rejection) ∨
      ∃ tool, first? tools name = some tool ∧ tool.eval arguments = .error (.rejected rejection)
  final : ∀ name arguments value, box.invoke name arguments = .ok (.final value) ↔
    name = "submit_response" ∧
      ∃ tool, first? tools name = some tool ∧ tool.eval arguments = .ok value
  completed : ∀ name arguments value, box.invoke name arguments = .ok (.completed value) ↔
    name ≠ "submit_response" ∧
      ∃ tool, first? tools name = some tool ∧ tool.eval arguments = .ok value
  failed : ∀ name arguments error, box.invoke name arguments = .error error ↔
    (∀ rejection, error ≠ .rejected rejection) ∧
      ∃ tool, first? tools name = some tool ∧ tool.eval arguments = .error error

theorem afterAll_keepsFirst (tools : List CallableSchema) : KeepsFirst tools (afterAll tools) := by
  have hHolds := holds_afterAll tools
  refine ⟨hHolds.names, hHolds.names_nodup, hHolds.found, fun tool => ?_, fun tool hm => ?_,
    fun flavor withLong documents h => ?_, fun name arguments rejection => ?_,
    fun name arguments value => ?_, fun name arguments value => ?_, fun name arguments error => ?_⟩
  · constructor
    · rintro ⟨larger, hLarger⟩ hm
      rw [add_of_mem hm] at hLarger
      cases hLarger
    · intro hm
      exact ⟨_, add_of_not_mem hm⟩
  · refine ⟨add_of_mem hm, fun later => ?_⟩
    rw [afterAll, afterAll, List.foldl_append, List.foldl_append, List.foldl_cons]
    exact congrArg (later.foldl after) (after_of_mem hm)
  · have hDocuments := hHolds.describe h
    refine ⟨?_, hDocuments⟩
    have hNames : (afterAll tools).names.map id = documents.map (·.name) :=
      (hDocuments.imp fun name document hDocument => by
        obtain ⟨tool, hTool, hDescribe⟩ := hDocument
        rw [CallableSchema.name_of_describe hDescribe, name_of_first? hTool, id]).map_eq
    rw [← hNames, List.map_id]
  · rw [invoke_eq_rejected_iff, hHolds.found, first?_eq_none_iff]
  · rw [invoke_eq_final_iff, hHolds.found]
    rfl
  · rw [invoke_eq_completed_iff, hHolds.found]
    rfl
  · rw [invoke_eq_error_iff, hHolds.found]

end Toolbox

end ToolSchema
