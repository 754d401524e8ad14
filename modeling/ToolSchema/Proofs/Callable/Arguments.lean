import ToolSchema.Proofs.Callable.Record

/-! What the constructor of an object is called with. The members arrive in any
order, but the arguments depend on the declaration of the fields only. -/
namespace List

/-- What passes the test comes first if and only if nothing that passes it
stands behind something that does not. -/
theorem filter_prefix_iff_pairwise {α : Type} (p : α → Bool) (as : List α) :
    as.filter p <+: as ↔ as.Pairwise fun earlier later => p later = true → p earlier = true := by
  induction as with
  | nil => simp
  | cons a as ih =>
      by_cases hp : p a = true
      · rw [filter_cons_of_pos hp, prefix_cons_inj, ih, pairwise_cons]
        exact (and_iff_right fun _ _ _ => hp).symm
      · rw [filter_cons_of_neg hp, pairwise_cons]
        constructor
        · intro h
          have hNone : as.filter p = [] := by
            cases hFilter : as.filter p with
            | nil => rfl
            | cons b bs =>
                rw [hFilter] at h
                obtain ⟨rfl, -⟩ := cons_prefix_cons.mp h
                exact absurd (mem_filter.mp (hFilter ▸ mem_cons_self)).2 hp
          have hOut : ∀ b ∈ as, ¬p b = true := filter_eq_nil_iff.mp hNone
          exact ⟨fun b hb hpb => absurd hpb (hOut b hb),
            pairwise_of_forall_mem_list fun _ _ b hb hpb => absurd hpb (hOut b hb)⟩
        · intro h
          rw [filter_eq_nil_iff.mpr fun b hb hpb => hp (h.1 b hb hpb)]
          exact nil_prefix

/-- Each result stands beside the element that it comes from. -/
theorem forall₂_filter_filterMap {α β : Type} {p : α → Bool} {f : α → Option β} {as : List α}
    (h : ∀ a ∈ as, p a = (f a).isSome) :
    Forall₂ (fun a b => f a = some b) (as.filter p) (as.filterMap f) := by
  induction as with
  | nil => exact .nil
  | cons a as ih =>
      rw [forall_mem_cons] at h
      cases hf : f a with
      | none =>
          rw [filter_cons_of_neg (by simp [h.1, hf]), filterMap_cons_none hf]
          exact ih h.2
      | some b =>
          rw [filter_cons_of_pos (by simp [h.1, hf]), filterMap_cons_some hf]
          exact .cons hf (ih h.2)

end List

namespace ToolSchema.ObjectSchema

open Except (bind_eq_ok_iff)

/-- The members supply this value for the field with this name. -/
def Supplies (object : ObjectSchema Schema) (path : Path) (members : List (String × Json))
    (name : String) (value : Value) : Prop :=
  ∃ field ∈ object.fields, field.name = name ∧
    ∃ item, (Entries.ofPairs members).get? name = some item ∧
      Schema.evalAt field.schema (path.child (.field name)) item = .ok value

/-- Arguments that hold what the members supply. The supplied fields that can
be passed by position only are the first ones of these, and all others are
passed by name in the order of the fields. -/
structure Receives (object : ObjectSchema Schema) (path : Path) (members : List (String × Json))
    (args : Arguments) : Prop where
  declared : ∀ member ∈ members, ∃ field ∈ object.fields, field.name = member.1 ∧
    ∃ value, Schema.evalAt field.schema (path.child (.field member.1)) member.2 = .ok value
  required : ∀ field ∈ object.fields, field.required = true → field.name ∈ Entries.keys members
  leading : object.positionalOnly.filter (· ∈ Entries.keys members) <+: object.positionalOnly
  positional : List.Forall₂ (object.Supplies path members)
    (object.positionalOnly.filter (· ∈ Entries.keys members)) args.positional
  keyword : List.Forall₂ (fun name entry => entry.1 = name ∧
      object.Supplies path members name entry.2)
    ((object.fields.map (·.name)).filter fun name =>
      name ∈ Entries.keys members ∧ name ∉ object.positionalOnly) args.keyword

/-- Everything that happens before the constructor is called. -/
def validated (object : ObjectSchema Schema) (path : Path) (members : List (String × Json)) :
    Except Error Arguments := do
  let fields := (object.map Schema.evalAt).fields
  let supplied ← Schema.evalMembers fields path [] members
  match Schema.missingFields fields supplied with
  | [] => Schema.arrange object.positionalOnly path supplied none fields
  | missing => Schema.reject path (.missingFields missing)

/-- What happens before the constructor is called does not depend on it. -/
theorem validated_with_construct (object : ObjectSchema Schema) (construct : Constructor)
    (path : Path) (members : List (String × Json)) :
    validated { object with construct := construct } path members = object.validated path members :=
  rfl

/-- The constructor is called last, and its result is the result. -/
theorem evalAt_eq_validated_bind (object : ObjectSchema Schema) (path : Path)
    (members : List (String × Json)) :
    Schema.evalAt (.object object) path (.object members) =
      object.validated path members >>= fun args =>
        match object.construct args with
        | .ok result => .ok result
        | .error refusal => .error (.construction object.name refusal) := by
  rw [Schema.evalAt_object, Schema.evalObject_members, validated, bind_assoc]
  refine bind_congr fun supplied => ?_
  cases hMissing : Schema.missingFields (object.map Schema.evalAt).fields supplied with
  | nil =>
      rw [Schema.finish, hMissing]
      rfl
  | cons name more =>
      rw [Schema.finish, hMissing]
      rfl

/-- Once the arguments are there, the constructor decides. -/
theorem evalAt_of_validated {object : ObjectSchema Schema} {path : Path}
    {members : List (String × Json)} {args : Arguments}
    (h : object.validated path members = .ok args) :
    Schema.evalAt (.object object) path (.object members) =
      (object.construct args).mapError (.construction object.name) := by
  rw [evalAt_eq_validated_bind, h, Except.ok_bind]
  cases object.construct args <;> rfl

/-- A constructor that stores its arguments shows what they are. -/
theorem validated_eq_ok_iff {object : ObjectSchema Schema} (hDistinct : object.DistinctNames)
    (path : Path) (members : List (String × Json)) (args : Arguments) :
    object.validated path members = .ok args ↔
      ∃ values, List.Forall₂ (fun member value => ∃ field ∈ object.fields, field.name = member.1 ∧
          Schema.evalAt field.schema (path.child (.field member.1)) member.2 = .ok value)
          members values ∧
        (∀ field ∈ object.fields, field.required = true → field.name ∈ Entries.keys members) ∧
        object.GapFree (Entries.keys members) ∧
        object.arguments (Entries.ofPairs ((Entries.keys members).zip values)) = args := by
  let store (args : Arguments) : Value := .tuple [.list args.positional, .record "" args.keyword]
  have hStore (a b : Arguments) : store a = store b ↔ a = b := by
    obtain ⟨positional, keyword⟩ := a
    obtain ⟨positional', keyword'⟩ := b
    simp [store]
  let storing : ObjectSchema Schema := { object with construct := fun args => .ok (store args) }
  have hOk : object.validated path members = .ok args ↔
      Schema.evalAt (.object storing) path (.object members) = .ok (store args) := by
    rw [evalAt_eq_validated_bind, bind_eq_ok_iff]
    constructor
    · intro h
      exact ⟨args, h, rfl⟩
    · intro h
      obtain ⟨stored, hStored, he⟩ := h
      rw [← (hStore stored args).mp (Except.ok.inj he)]
      exact hStored
  rw [hOk, @Schema.evalAt_object_eq_ok_iff storing hDistinct]
  refine exists_congr fun values => and_congr_right' (and_congr_right' (and_congr_right' ?_))
  exact ⟨fun h => (hStore _ _).mp (Except.ok.inj h), fun h => h ▸ rfl⟩

/-- Where the positional-only fields come first, no gap means that those that
are given come first among them. -/
theorem gapFree_iff_leading {object : ObjectSchema Schema} (hDistinct : object.DistinctNames)
    (hPrefix : object.positionalOnly <+: object.fields.map (·.name)) (given : List String) :
    object.GapFree given ↔ object.positionalOnly.filter (· ∈ given) <+: object.positionalOnly := by
  obtain ⟨named, hNames⟩ := hPrefix
  rw [List.filter_prefix_iff_pairwise]
  simp only [decide_eq_true_eq]
  refine ⟨fun h => h.positional hNames.symm, fun h => ?_⟩
  rw [DistinctNames, ← hNames, List.nodup_append] at hDistinct
  have hOther : ∀ name ∈ named, name ∉ object.positionalOnly := fun name hm hPositional =>
    hDistinct.2.2 name hPositional name hm rfl
  have hAll : (object.fields.map (·.name)).Pairwise fun earlier later =>
      earlier ∈ object.positionalOnly → later ∈ object.positionalOnly → later ∈ given →
        earlier ∈ given := by
    rw [← hNames, List.pairwise_append]
    refine ⟨h.imp fun hGiven _ _ => hGiven, List.pairwise_of_forall_mem_list ?_, ?_⟩
    · intro earlier hm _ _ hPositional
      exact absurd hPositional (hOther earlier hm)
    · intro _ _ later hm _ hPositional
      exact absurd hPositional (hOther later hm)
  exact List.pairwise_map.mp hAll

/-- The arguments that evaluation puts together are those that the members supply: by position where
the names lead, and by name behind them. -/
theorem receives_arguments {object : ObjectSchema Schema} (hDistinct : object.DistinctNames)
    (hPrefix : object.positionalOnly <+: object.fields.map (·.name)) {path : Path}
    {members : List (String × Json)} {values : List Value}
    (hValues : List.Forall₂ (fun member value => ∃ field ∈ object.fields, field.name = member.1 ∧
      Schema.evalAt field.schema (path.child (.field member.1)) member.2 = .ok value)
      members values)
    (hRequired : ∀ field ∈ object.fields, field.required = true →
      field.name ∈ Entries.keys members)
    (hGap : object.GapFree (Entries.keys members)) :
    object.Receives path members
      (object.arguments (Entries.ofPairs ((Entries.keys members).zip values))) := by
  have hLeading := (gapFree_iff_leading hDistinct hPrefix _).mp hGap
  obtain ⟨named, hNames⟩ := hPrefix
  rw [arguments_eq hNames.symm hDistinct]
  rw [DistinctNames, ← hNames, List.nodup_append] at hDistinct
  have hKeys (name : String) : (decide (name ∈ Entries.keys members) : Bool) =
      ((Entries.ofPairs ((Entries.keys members).zip values)).get? name).isSome := by
    rw [Bool.eq_iff_iff, decide_eq_true_eq, Entries.get?_isSome_iff,
      Entries.mem_keys_ofPairs_zip hValues.length_eq]
  have hSupplies {name : String} {value : Value}
      (hGet : (Entries.ofPairs ((Entries.keys members).zip values)).get? name = some value) :
      object.Supplies path members name value := by
    obtain ⟨item, hItem, field, hField, hName, hValue⟩ := Entries.get?_ofPairs_zip hValues hGet
    exact ⟨field, hField, hName, item, hItem, hValue⟩
  refine ⟨fun member hm => ?_, hRequired, hLeading, ?_, ?_⟩
  · obtain ⟨value, _, field, hField, hName, hValue⟩ := hValues.exists_right hm
    exact ⟨field, hField, hName, value, hValue⟩
  · exact (List.forall₂_filter_filterMap fun name _ => hKeys name).imp fun _ _ => hSupplies
  · have hNamed : (object.fields.map (·.name)).filter (fun name =>
        name ∈ Entries.keys members ∧ name ∉ object.positionalOnly) =
          named.filter (· ∈ Entries.keys members) := by
      rw [← hNames, List.filter_append, List.filter_eq_nil_iff.mpr, List.nil_append]
      · exact List.filter_congr fun name hm => decide_eq_decide.mpr
          (and_iff_left fun hPositional => hDistinct.2.2 name hPositional name hm rfl)
      · intro name hm
        simp [hm]
    rw [hNamed]
    refine (List.forall₂_filter_filterMap fun name _ => ?_).imp fun name entry hEntry => ?_
    · rw [hKeys, Option.isSome_map]
    · obtain ⟨value, hGet, rfl⟩ := Option.map_eq_some_iff.mp hEntry
      exact ⟨rfl, hSupplies hGet⟩

/-- What a constructor can receive, it does receive. No check stands in the way. -/
theorem Receives.validated_ok {object : ObjectSchema Schema} {path : Path}
    {members : List (String × Json)} {args : Arguments} (hDistinct : object.DistinctNames)
    (hPrefix : object.positionalOnly <+: object.fields.map (·.name))
    (h : object.Receives path members args) : ∃ found, object.validated path members = .ok found := by
  have hEach : ∀ member ∈ members, ∃ value, ∃ field ∈ object.fields, field.name = member.1 ∧
      Schema.evalAt field.schema (path.child (.field member.1)) member.2 = .ok value := by
    intro member hm
    obtain ⟨field, hField, hName, value, hValue⟩ := h.declared member hm
    exact ⟨value, field, hField, hName, hValue⟩
  obtain ⟨values, hValues⟩ := (List.exists_forall₂_iff members).mpr hEach
  have hGap := (gapFree_iff_leading hDistinct hPrefix _).mpr h.leading
  exact ⟨_, (validated_eq_ok_iff hDistinct path members _).mpr
    ⟨values, hValues, h.required, hGap, rfl⟩⟩

/-- The constructor is called with what the members supply if there are such
arguments, and otherwise it is not called. -/
theorem constructor_receives_arguments {object : ObjectSchema Schema}
    (hDistinct : object.DistinctNames)
    (hPrefix : object.positionalOnly <+: object.fields.map (·.name)) (path : Path)
    (members : List (String × Json)) :
    (∃ args, object.Receives path members args ∧ ∀ construct,
      Schema.evalAt (.object { object with construct := construct }) path (.object members) =
        match construct args with
        | .ok result => .ok result
        | .error refusal => .error (.construction object.name refusal)) ∨
    (¬ ∃ args, object.Receives path members args) ∧ ∃ error, ∀ construct,
      Schema.evalAt (.object { object with construct := construct }) path (.object members) =
        .error error := by
  have hEval (construct : Constructor) :=
    evalAt_eq_validated_bind { object with construct := construct } path members
  cases hValidated : object.validated path members with
  | ok args =>
      obtain ⟨values, hValues, hRequired, hGap, rfl⟩ :=
        (validated_eq_ok_iff hDistinct path members args).mp hValidated
      refine .inl ⟨_, receives_arguments hDistinct hPrefix hValues hRequired hGap, ?_⟩
      intro construct
      rw [hEval, validated_with_construct, hValidated]
      rfl
  | error error =>
      refine .inr ⟨?_, error, fun construct => ?_⟩
      · rintro ⟨args, h⟩
        obtain ⟨found, hFound⟩ := h.validated_ok hDistinct hPrefix
        rw [hValidated] at hFound
        cases hFound
      · rw [hEval, validated_with_construct, hValidated]
        rfl

/-- The first of three fields goes by position and the last by name, in
whatever order they come. -/
theorem constructor_receives_arguments_of_move :
    ∃ args, (⟨"move", fun _ => .ok .absent, none, ["x", "y"], [⟨"x", .primitive .int, none, true⟩,
        ⟨"y", .primitive .int, none, false⟩, ⟨"z", .primitive .int, none, false⟩]⟩ :
          ObjectSchema Schema).Receives [] [("z", .int 3), ("x", .int 1)] args ∧
      args = ⟨[.int 1], [("z", .int 3)]⟩ := by
  obtain ⟨args, hArgs, hCall⟩ | ⟨-, error, hError⟩ := @constructor_receives_arguments
    ⟨"move", fun _ => .ok .absent, none, ["x", "y"], [⟨"x", .primitive .int, none, true⟩,
      ⟨"y", .primitive .int, none, false⟩, ⟨"z", .primitive .int, none, false⟩]⟩
    (by unfold DistinctNames; decide) ⟨["z"], rfl⟩ [] [("z", .int 3), ("x", .int 1)]
  · refine ⟨args, hArgs, ?_⟩
    have hStored : (.ok (.tuple [.list [.int 1], .record "" [("z", .int 3)]]) :
        Except Error Value) = .ok (.tuple [.list args.positional, .record "" args.keyword]) :=
      hCall fun args => .ok (.tuple [.list args.positional, .record "" args.keyword])
    cases args
    cases hStored
    rfl
  · cases hError fun _ => .ok .absent

end ToolSchema.ObjectSchema
