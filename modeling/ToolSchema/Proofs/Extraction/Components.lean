import ToolSchema.Extraction.Strategy
import ToolSchema.Proofs.Callable.Arguments
import ToolSchema.Proofs.Schema.Conformance

/-! What the constructors of dates, times of day and durations are called with.
The schema checks that a value has integers under the names of the components,
and the constructor finds them there, in whatever order they came. -/
namespace ToolSchema

/-- Lookup sees what becomes of the values. -/
theorem Entries.get?_map {α β : Type} (f : α → β) (entries : Entries α) (key : String) :
    Entries.get? (entries.map (Prod.map id f)) key = (entries.get? key).map f := by
  induction entries with
  | nil => rfl
  | cons entry more ih =>
      rw [List.map_cons, Entries.get?_cons, Entries.get?_cons, ih]
      by_cases he : entry.1 = key <;> simp [he]

/-- The components of a date, a time of day or a duration, as a value gives them. -/
inductive Components
  | date (year month day : Int64)
  | dateTime (year month day : Int64) (hour minute second : Option Int64)
  | time (hour minute second : Option Int64)
  | duration (days seconds : Option Int64)

namespace Components

def kind : Components → TemporalKind
  | .date _ _ _ => .date
  | .dateTime _ _ _ _ _ _ => .dateTime
  | .time _ _ _ => .time
  | .duration _ _ => .duration

/-- The components under their names. Those of a day are never left out. -/
def named : Components → List (String × Option Int64)
  | .date year month day => [("year", some year), ("month", some month), ("day", some day)]
  | .dateTime year month day hour minute second =>
    [("year", some year), ("month", some month), ("day", some day), ("hour", hour),
      ("minute", minute), ("second", second)]
  | .time hour minute second => [("hour", hour), ("minute", minute), ("second", second)]
  | .duration days seconds => [("days", days), ("seconds", seconds)]

/-- The components that are not left out. -/
def given (components : Components) : Entries Int64 :=
  components.named.filterMap fun component => component.2.map (component.1, ·)

/-- The value is an object of these components. Its members may come in any order. -/
def GivenBy (components : Components) (value : Json) : Prop :=
  ∃ members : Entries Int64, members.Perm components.given ∧
    value = .object (members.map (Prod.map id fun n => .int n.toInt))

/-- The arguments hold these components under their names. -/
def PassedBy (components : Components) (args : Arguments) : Prop :=
  ∀ name n, (name, n) ∈ components.named → args.get? name = n.map .int

variable {components : Components}

theorem mem_given (name : String) (n : Int64) :
    (name, n) ∈ components.given ↔ (name, some n) ∈ components.named := by
  simp [given]

theorem names_nodup (components : Components) : (components.named.map (·.1)).Nodup := by
  cases components <;> simp [named]

/-- The schema has a field for each component, in the order of the components. -/
theorem names_of_temporalFields (components : Components) :
    (Strategy.temporalFields components.kind).map (·.name) = components.named.map (·.1) := by
  cases components <;> rfl

theorem fields_primitive (kind : TemporalKind) :
    ∀ field ∈ Strategy.temporalFields kind, field.schema = .primitive .int := by
  cases kind <;> simp [Strategy.temporalFields, Strategy.intFields]

/-- Only components of a day are required, and these are never left out. -/
theorem required_given (components : Components) :
    ∀ field ∈ Strategy.temporalFields components.kind, field.required = true →
      field.name ∈ components.given.keys := by
  cases components <;>
    simp [kind, Strategy.temporalFields, Strategy.intFields, given, named, Entries.keys]

/-- No component is given twice, in whatever order. -/
theorem given_keys_nodup (components : Components) : components.given.keys.Nodup := by
  rw [List.Nodup, Entries.keys, List.pairwise_map, given, List.pairwise_filterMap]
  refine (List.pairwise_map.mp components.names_nodup).imp fun hNames entry hEntry other hOther => ?_
  obtain ⟨_, _, rfl⟩ := Option.map_eq_some_iff.mp hEntry
  obtain ⟨_, _, rfl⟩ := Option.map_eq_some_iff.mp hOther
  exact hNames

section

variable {members : Entries Int64}

theorem keys_nodup_of_perm (h : members.Perm components.given) : members.keys.Nodup :=
  (h.map _).nodup_iff.mpr components.given_keys_nodup

/-- What is found under the name of a component is this component. -/
theorem get?_of_perm (h : members.Perm components.given) {name : String} {n : Option Int64}
    (hm : (name, n) ∈ components.named) : members.get? name = n := by
  apply Option.ext
  intro found
  rw [Entries.get?_eq_some_iff (keys_nodup_of_perm h), h.mem_iff, mem_given]
  constructor
  · intro hFound
    exact (Prod.mk.inj (List.inj_on_of_nodup_map components.names_nodup hm hFound rfl)).2
  · intro he
    exact he ▸ hm

/-- The fields accept the members one by one, each as its integer. -/
theorem fields_accept (h : members.Perm components.given) (path : Path) :
    List.Forall₂ (fun member value => ∃ field ∈ Strategy.temporalFields components.kind,
        field.name = member.1 ∧
        Schema.evalAt field.schema (path.child (.field member.1)) member.2 = .ok value)
      (members.map (Prod.map id fun n => Json.int n.toInt))
      (members.map fun member => .int member.2) := by
  rw [List.forall₂_map_left_iff, List.forall₂_map_right_iff, List.forall₂_same]
  intro member hm
  have hName : member.1 ∈ (Strategy.temporalFields components.kind).map (·.name) := by
    rw [names_of_temporalFields]
    exact List.mem_map_of_mem ((mem_given _ _).mp (h.mem_iff.mp hm))
  obtain ⟨field, hField, hName⟩ := List.mem_map.mp hName
  have hInt : (Json.int member.2.toInt).int64? = some member.2 :=
    (Schema.int64?_eq_some_iff _ _).mpr rfl
  refine ⟨field, hField, hName, ?_⟩
  rw [fields_primitive _ field hField, Schema.evalAt]
  simp [Schema.evalScalar, hInt]

/-- The members as arguments, in the order of the components. -/
def arguments (components : Components) (members : Entries Int64) : Arguments :=
  ⟨[], Entries.select (members.map (Prod.map id .int)) (components.named.map (·.1))⟩

/-- The arguments hold the components under their names. -/
theorem passedBy_arguments (h : members.Perm components.given) :
    components.PassedBy (components.arguments members) := by
  intro name n hm
  change Entries.get? (Entries.select _ _) name = _
  rw [Entries.get?_select _ components.names_nodup (List.mem_map_of_mem hm), Entries.get?_map,
    get?_of_perm h hm]

/-- All fields are integers and none of them goes by position, so nothing is rejected. -/
theorem validated_eq (h : members.Perm components.given) (name : String) (path : Path) :
    (Strategy.temporalSchema name components.kind).call.validated path
      (members.map (Prod.map id fun n => .int n.toInt)) = .ok (components.arguments members) := by
  let object := (Strategy.temporalSchema name components.kind).call
  have hNames : object.fields.map (·.name) = object.positionalOnly ++ components.named.map (·.1) :=
    components.names_of_temporalFields
  have hDistinct : object.DistinctNames := by
    rw [ObjectSchema.DistinctNames, hNames]
    exact components.names_nodup
  have hKeys : Entries.keys (members.map (Prod.map id fun n => Json.int n.toInt)) = members.keys := by
    simp [Entries.keys]
  have hRequired : ∀ field ∈ object.fields, field.required = true → field.name ∈ members.keys := by
    intro field hField hRequired
    exact (h.map _).mem_iff.mpr (components.required_given field hField hRequired)
  have hGapFree : object.GapFree members.keys :=
    List.pairwise_of_forall fun _ _ hPositional => absurd hPositional List.not_mem_nil
  have hSupplied : Entries.ofPairs (members.keys.zip (members.map fun member => .int member.2)) =
      members.map (Prod.map id Value.int) := by
    rw [Entries.keys, List.zip_map', Entries.ofPairs_of_nodup]
    · rfl
    · rw [Entries.keys, List.map_map]
      exact keys_nodup_of_perm h
  rw [ObjectSchema.validated_eq_ok_iff hDistinct]
  refine ⟨_, fields_accept h path, hKeys ▸ hRequired, hKeys ▸ hGapFree, ?_⟩
  rw [hKeys, hSupplied, arguments_eq hNames hDistinct]
  rfl

end

/-- The constructor is called with the components, and its refusal is reported under the name of
the schema. -/
theorem eval_eq {value : Json} (h : components.GivenBy value) (name : String) :
    ∃ args, components.PassedBy args ∧
      (Strategy.temporalSchema name components.kind).eval value =
        (Constructor.temporal components.kind args).mapError (.construction name) := by
  obtain ⟨members, hPerm, rfl⟩ := h
  exact ⟨_, passedBy_arguments hPerm, ObjectSchema.evalAt_of_validated (validated_eq hPerm name [])⟩

/-- What the constructors read from arguments: an integer that must be there, or one that is zero
where it is left out. -/
theorem PassedBy.int {args : Arguments} (h : components.PassedBy args) {name : String} {n : Int64}
    (hm : (name, some n) ∈ components.named) : args.int name = .ok n := by
  rw [Arguments.int, h name _ hm]
  rfl

theorem PassedBy.intOr {args : Arguments} (h : components.PassedBy args) {name : String}
    {n : Option Int64} (hm : (name, n) ∈ components.named) : args.intOr name 0 = .ok (n.getD 0) := by
  rw [Arguments.intOr, h name n hm]
  cases n <;> rfl

end Components

end ToolSchema
