import ToolSchema.Json.Basic
import ToolSchema.Proofs.Entries
import ToolSchema.Proofs.Pairs
import ToolSchema.Proofs.Schema.Objects

/-! Evaluation of values that differ in the order of members. Members are
evaluated as they come, so the order decides which failure comes first, and a
union goes on after some failures only. -/

/-! Values that differ in the order of the members of their objects only -/

namespace ToolSchema.Json

/-- The same value up to the order of members, at any depth. In an object
whose members change places no key occurs twice. -/
inductive Reordered : Json → Json → Prop
  | same (value : Json) : Reordered value value
  | array {items items' : List Json} (hLength : items.length = items'.length)
      (hItems : ∀ item item', (item, item') ∈ items.zip items' → Reordered item item') :
      Reordered (.array items) (.array items')
  | object {members members' : List (String × Json)} (hDistinct : (Entries.keys members).Nodup)
      (hKeys : (Entries.keys members).Perm (Entries.keys members'))
      (hItems : ∀ key item item', (key, item) ∈ members → (key, item') ∈ members' →
        Reordered item item') :
      Reordered (.object members) (.object members')

/-- The order of members may be changed back. -/
theorem Reordered.symm {v w : Json} (h : Reordered v w) : Reordered w v := by
  induction h with
  | same value => exact .same value
  | array hLength _ ih =>
      have hItems := (List.forall₂_iff_zip.mpr ⟨hLength, ih _ _⟩).flip
      exact .array hLength.symm fun item item' hm => List.forall₂_zip hItems hm
  | object hDistinct hKeys _ ih =>
      exact .object (hKeys.nodup_iff.mp hDistinct) hKeys.symm fun key item item' hm hm' =>
        ih key item' item hm' hm

/-- Members with distinct keys may change places. -/
theorem reordered_of_perm {members members' : List (String × Json)}
    (hDistinct : (Entries.keys members).Nodup) (h : members.Perm members') :
    Reordered (.object members) (.object members') := by
  refine .object hDistinct (h.map _) fun key item item' hm hm' => ?_
  have hSame : item = item' := by
    rw [← Entries.get?_eq_some_iff hDistinct] at hm
    rw [← h.mem_iff, ← Entries.get?_eq_some_iff hDistinct, hm] at hm'
    exact Option.some.inj hm'
  exact hSame ▸ .same item

end ToolSchema.Json

/-! Evaluation -/

namespace ToolSchema.Schema

open Except (bind_eq_ok_iff bind_eq_error_iff pure_eq_ok_iff)

/-- A constructor refused its arguments, and that ended the computation. -/
def Refused {α : Type} (x : Except Error α) : Prop :=
  ∃ error, x = .error error ∧ error.IsConstruction

/-- The second computation succeeds like the first. A lenient comparison allows
a constructor to end the second one. Where an alternative may still be tried
after a failure, the failures are watched too. -/
structure Follows {α : Type} (lenient watched : Bool) (x y : Except Error α) : Prop where
  ok : ∀ a, x = .ok a → y = .ok a ∨ (lenient = true ∧ Refused y)
  refused : watched = true → Refused x → Refused y

section

variable {α β : Type} {lenient watched : Bool}

/-- A refusal comes from the first computation or from the second, after the first has succeeded. -/
theorem refused_bind_iff {x : Except Error α} {f : α → Except Error β} :
    Refused (x >>= f) ↔ Refused x ∨ ∃ a, x = .ok a ∧ Refused (f a) := by
  cases x with
  | error error => simp [Refused, bind, Except.bind]
  | ok a => simp [Refused, bind, Except.bind]

/-- An error after which a union goes on is not a refusal. -/
theorem not_refused_of_mild {error : Error} (h : error.IsMild) :
    ¬ Refused (.error error : Except Error α) := by
  intro hRefused
  obtain ⟨_, he, hConstruction⟩ := hRefused
  cases he
  exact h.not_construction hConstruction

theorem Follows.refl (x : Except Error α) : Follows lenient watched x x :=
  ⟨fun _ h => .inl h, fun _ h => h⟩

theorem Follows.of_mild {error : Error} (h : error.IsMild) (y : Except Error α) :
    Follows lenient watched (.error error) y :=
  ⟨nofun, fun _ hRefused => absurd hRefused (not_refused_of_mild h)⟩

/-- Computations that go on alike may be compared step by step. -/
theorem Follows.bind {x y : Except Error α} {f g : α → Except Error β}
    (h : Follows lenient watched x y) (hNext : ∀ a, Follows lenient watched (f a) (g a)) :
    Follows lenient watched (x >>= f) (y >>= g) := by
  constructor
  · intro b hb
    obtain ⟨a, hx, hf⟩ := bind_eq_ok_iff.mp hb
    rcases h.ok a hx with hy | ⟨hLenient, hRefused⟩
    · rcases (hNext a).ok b hf with hg | ⟨hLenient, hRefused⟩
      · exact .inl (bind_eq_ok_iff.mpr ⟨a, hy, hg⟩)
      · exact .inr ⟨hLenient, refused_bind_iff.mpr (.inr ⟨a, hy, hRefused⟩)⟩
    · exact .inr ⟨hLenient, refused_bind_iff.mpr (.inl hRefused)⟩
  · intro hWatched hRefused
    rw [refused_bind_iff] at hRefused ⊢
    rcases hRefused with hx | ⟨a, hx, hf⟩
    · exact .inl (h.refused hWatched hx)
    · rcases h.ok a hx with hy | ⟨_, hy⟩
      · exact .inr ⟨a, hy, (hNext a).refused hWatched hf⟩
      · exact .inl hy

end

/-- The evaluator treats values that differ in the order of members alike. -/
def OrderFree (lenient watched : Bool) (run : Evaluator) : Prop :=
  ∀ path v w, v.Reordered w → Follows lenient watched (run path v) (run path w)

section

variable {lenient watched : Bool}

/-- Items of arrays do not change places, so each is compared with the one at its position. -/
theorem evalEach_follows {item : Evaluator} (hItem : OrderFree lenient watched item)
    {values values' : List Json} (h : List.Forall₂ Json.Reordered values values') (path : Path)
    (index : Nat) :
    Follows lenient watched (evalEach item path index values) (evalEach item path index values') := by
  induction h generalizing index with
  | nil => exact .refl _
  | cons hHead _ ih =>
      refine (hItem _ _ _ hHead).bind fun first => ?_
      exact (ih (index + 1)).bind fun rest => .refl _

theorem evalItems_follows {schemas : List Schema}
    (hSchemas : ∀ schema ∈ schemas, OrderFree lenient watched (evalAt schema))
    {values values' : List Json} (h : List.Forall₂ Json.Reordered values values') (path : Path)
    (index : Nat) :
    Follows lenient watched (evalItems schemas path index values)
      (evalItems schemas path index values') := by
  induction schemas generalizing values values' index with
  | nil =>
      simp only [evalItems]
      exact .refl _
  | cons schema schemas ih =>
      rw [List.forall_mem_cons] at hSchemas
      cases h with
      | nil => exact .refl _
      | cons hHead hTail =>
          rw [evalItems, evalItems]
          refine (hSchemas.1 _ _ _ hHead).bind fun first => ?_
          exact (ih hSchemas.2 hTail (index + 1)).bind fun rest => .refl _

theorem orderFree_primitive (kind : Scalar) :
    OrderFree lenient watched (evalAt (.primitive kind)) := by
  intro path v w hReordered
  cases hReordered with
  | same _ => exact .refl _
  | _ => cases kind <;> exact .of_mild (.inl ⟨_, rfl⟩) _

theorem orderFree_sequence {origin : Origin} {item : Schema}
    (hItem : OrderFree lenient watched (evalAt item)) :
    OrderFree lenient watched (evalAt (.sequence origin item)) := by
  intro path v w hReordered
  cases hReordered with
  | same _ => exact .refl _
  | array hLength hItems =>
      have hValues := List.forall₂_iff_zip.mpr ⟨hLength, hItems _ _⟩
      rw [evalAt, evalAt]
      exact (evalEach_follows hItem hValues path 0).bind fun values => .refl _
  | object _ _ _ => exact .of_mild (.inl ⟨_, rfl⟩) _

theorem orderFree_tuple {origin : Origin} {schemas : List Schema}
    (hSchemas : ∀ schema ∈ schemas, OrderFree lenient watched (evalAt schema)) :
    OrderFree lenient watched (evalAt (.tuple origin schemas)) := by
  intro path v w hReordered
  cases hReordered with
  | same _ => exact .refl _
  | array hLength hItems =>
      have hValues := List.forall₂_iff_zip.mpr ⟨hLength, hItems _ _⟩
      rw [evalAt, evalAt, hLength]
      split
      · exact (evalItems_follows hSchemas hValues path 0).bind fun values => .refl _
      · exact .of_mild (.inl ⟨_, rfl⟩) _
  | object _ _ _ => exact .of_mild (.inl ⟨_, rfl⟩) _

/-- No constant is an array or an object. -/
theorem orderFree_literal (options : List Constant) :
    OrderFree lenient watched (evalAt (.literal options)) := by
  have hReject {value : Json} (h : ∀ constant : Constant, constant.accepts value = false)
      (path : Path) (y : Except Error Value) :
      Follows lenient watched (evalAt (.literal options) path value) y := by
    have hNone : (options.find? fun option => option.accepts value) = none :=
      List.find?_eq_none.mpr fun option _ => by simp [h option]
    rw [evalAt, evalLiteral, hNone]
    exact .of_mild (.inl ⟨_, rfl⟩) y
  intro path v w hReordered
  cases hReordered with
  | same _ => exact .refl _
  | array _ _ => exact hReject (fun constant => by cases constant <;> rfl) _ _
  | object _ _ _ => exact hReject (fun constant => by cases constant <;> rfl) _ _

/-! Unions -/

/-- A refusal ends a union, so it comes from the first alternative, or from a later one if the first
fails mildly. -/
theorem refused_evalOptions_cons_iff (schema : Schema) (more : List (Option Schema)) (path : Path)
    (value : Json) :
    Refused (evalOptions (some schema :: more) path value) ↔
      Refused (evalAt schema path value) ∨
        ∃ error, evalAt schema path value = .error error ∧ error.IsMild ∧
          Refused (evalOptions more path value) := by
  have hMap (f : Trial → Trial) :
      Refused ((evalOptions more path value).map f) ↔ Refused (evalOptions more path value) :=
    exists_congr fun error => and_congr_left fun _ => Except.map_eq_error_iff
  cases hFirst : evalAt schema path value with
  | ok found => simp [evalOptions, hFirst, Refused]
  | error error =>
      rcases evalAt_error_mild_or_construction hFirst with hMild | hConstruction
      · have hNot := @not_refused_of_mild Value error hMild
        rcases hMild with ⟨rejection, rfl⟩ | ⟨obstacle, rfl⟩
        · simp [evalOptions, hFirst, hMap, hNot, Error.IsMild]
        · simp [evalOptions, hFirst, hMap, hNot, Error.IsMild]
      · obtain ⟨name, refusal, rfl⟩ := hConstruction
        simp [evalOptions, hFirst, Refused, Error.IsConstruction]

/-- Only an alternative can refuse on behalf of a union. -/
theorem refused_union_iff {options : List (Option Schema)} {value : Json}
    (h : ¬ (value = .null ∧ none ∈ options)) (path : Path) :
    Refused (evalAt (.union options) path value) ↔ Refused (evalOptions options path value) := by
  rw [evalAt_union_of_not_null h, refused_bind_iff]
  constructor
  · intro hRefused
    rcases hRefused with hOptions | ⟨trial, _, error, hError, hConstruction⟩
    · exact hOptions
    · exact absurd hConstruction (concludeUnion_mild hError).not_construction
  · intro hRefused
    exact .inl hRefused

/-- An alternative that fails mildly on one value does not succeed on the other. -/
theorem OrderFree.error_of_mild {schema : Schema} (h : OrderFree lenient watched (evalAt schema))
    {path : Path} {v w : Json} (hReordered : v.Reordered w) {error : Error}
    (hError : evalAt schema path v = .error error) (hMild : error.IsMild) :
    (∃ other, evalAt schema path w = .error other ∧ other.IsMild) ∨
      (Refused (evalAt schema path w) ∧ watched = false) := by
  have hNot : ¬ Refused (evalAt schema path v) := hError ▸ not_refused_of_mild hMild
  have hBack := h path w v hReordered.symm
  cases hOther : evalAt schema path w with
  | ok result =>
      rw [hOther, hError] at hBack
      rcases hBack.ok result rfl with he | ⟨_, hRefused⟩
      · cases he
      · exact absurd hRefused (not_refused_of_mild hMild)
  | error other =>
      rcases evalAt_error_mild_or_construction hOther with hMild | hConstruction
      · exact .inl ⟨other, rfl, hMild⟩
      · refine .inr ⟨⟨other, rfl, hConstruction⟩, Bool.eq_false_iff.mpr fun hWatched => ?_⟩
        exact hNot (hBack.refused hWatched ⟨other, hOther, hConstruction⟩)

/-- Failures of an alternative must be watched if failures of the union are,
and in a strict comparison also if another alternative follows. -/
def OptionsFree (lenient watched : Bool) (options : List (Option Schema)) : Prop :=
  ∀ before schema after, options = before ++ some schema :: after →
    ∃ strict, OrderFree lenient strict (evalAt schema) ∧ (watched = true → strict = true) ∧
      (after.any Option.isSome = true → lenient = true ∨ strict = true)

theorem OptionsFree.tail {option : Option Schema} {more : List (Option Schema)}
    (h : OptionsFree lenient watched (option :: more)) : OptionsFree lenient watched more := by
  intro before schema after he
  exact h (option :: before) schema after (he ▸ rfl)

/-- The alternative that was taken is taken again, unless an earlier one refuses now. A strict
comparison excludes that. -/
theorem evalOptions_accepted_follows {options : List (Option Schema)}
    (hOptions : OptionsFree lenient watched options) {path : Path} {v w : Json}
    (hReordered : v.Reordered w) {result : Value}
    (h : evalOptions options path v = .ok (.accepted result)) :
    evalOptions options path w = .ok (.accepted result) ∨
      (lenient = true ∧ Refused (evalOptions options path w)) := by
  induction options with
  | nil => cases h
  | cons option more ih =>
      cases option with
      | none =>
          rw [evalOptions] at h ⊢
          exact ih hOptions.tail h
      | some schema =>
          obtain ⟨strict, hFree, _, hNext⟩ := hOptions [] schema more rfl
          rw [evalOptions_cons_eq_accepted_iff] at h ⊢
          rw [refused_evalOptions_cons_iff]
          rcases h with hSchema | ⟨error, hError, hMild, hMore⟩
          · exact ((hFree path v w hReordered).ok result hSchema).imp .inl fun h => ⟨h.1, .inl h.2⟩
          · rcases hFree.error_of_mild hReordered hError hMild with
              ⟨other, hOther, hMild⟩ | ⟨hRefused, hStrict⟩
            · exact (ih hOptions.tail hMore).imp (fun h => .inr ⟨other, hOther, hMild, h⟩)
                fun h => ⟨h.1, .inr ⟨other, hOther, hMild, h.2⟩⟩
            -- A later alternative accepts the first value, so there is one.
            · obtain ⟨before, next, after, he, _⟩ := (evalOptions_eq_accepted_iff _ _ _ _).mp hMore
              have hAfter : more.any Option.isSome = true := by simp [he]
              rcases hNext hAfter with hLenient | hWatched
              · exact .inr ⟨hLenient, .inl hRefused⟩
              · exact absurd hWatched (Bool.eq_false_iff.mp hStrict)

/-- A refusal stays where failures are watched: the alternatives before it still fail mildly. -/
theorem evalOptions_refused_follows {options : List (Option Schema)}
    (hOptions : OptionsFree lenient watched options) (hWatched : watched = true) {path : Path}
    {v w : Json} (hReordered : v.Reordered w) (h : Refused (evalOptions options path v)) :
    Refused (evalOptions options path w) := by
  induction options with
  | nil =>
      obtain ⟨error, he, _⟩ := h
      cases he
  | cons option more ih =>
      cases option with
      | none =>
          rw [evalOptions] at h ⊢
          exact ih hOptions.tail h
      | some schema =>
          obtain ⟨strict, hFree, hStrict, _⟩ := hOptions [] schema more rfl
          rw [refused_evalOptions_cons_iff] at h ⊢
          rcases h with hSchema | ⟨error, hError, hMild, hMore⟩
          · exact .inl ((hFree path v w hReordered).refused (hStrict hWatched) hSchema)
          · rcases hFree.error_of_mild hReordered hError hMild with
              ⟨other, hOther, hMild⟩ | ⟨hRefused, _⟩
            · exact .inr ⟨other, hOther, hMild, ih hOptions.tail hMore⟩
            · exact .inl hRefused

/-- A union is free of the order if its alternatives are, with failures watched as far as another
alternative may follow. -/
theorem orderFree_union {options : List (Option Schema)}
    (hOptions : OptionsFree lenient watched options) :
    OrderFree lenient watched (evalAt (.union options)) := by
  intro path v w hReordered
  by_cases hNull : v = .null ∧ none ∈ options
  · obtain ⟨rfl, _⟩ := hNull
    cases hReordered with
    | same _ => exact .refl _
  · have hNull' : ¬ (w = .null ∧ none ∈ options) := by
      intro h
      obtain ⟨rfl, hNone⟩ := h
      cases hReordered with
      | same _ => exact hNull ⟨rfl, hNone⟩
    constructor
    · intro result h
      rw [evalAt_union_eq_ok_iff hNull] at h
      rw [evalAt_union_eq_ok_iff hNull', refused_union_iff hNull']
      exact evalOptions_accepted_follows hOptions hReordered h
    · intro hWatched h
      rw [refused_union_iff hNull] at h
      rw [refused_union_iff hNull']
      exact evalOptions_refused_follows hOptions hWatched hReordered h

/-! Objects -/

/-- What is supplied under the key of each member is what its field makes of it. -/
theorem evalMembers_get? {fields : List (Field Evaluator)} {path : Path}
    {members : List (String × Json)} (hDistinct : (Entries.keys members).Nodup)
    {all : Entries Value} (h : evalMembers fields path [] members = .ok all) :
    all.keys = Entries.keys members ∧ ∀ member ∈ members, ∃ field value,
      findField? fields member.1 = some field ∧
        field.schema (path.child (.field member.1)) member.2 = .ok value ∧
        all.get? member.1 = some value := by
  obtain ⟨values, hValues, rfl⟩ := (evalMembers_eq_ok_iff _ _ _ _ _).mp h
  have hKeys : Entries.keys ((Entries.keys members).zip values) = Entries.keys members :=
    Entries.keys_zip (by simpa [Entries.keys] using hValues.length_eq)
  have hNodup : (Entries.keys ((Entries.keys members).zip values)).Nodup := by rwa [hKeys]
  have hAll : Entries.insertAll [] ((Entries.keys members).zip values) =
      (Entries.keys members).zip values := Entries.ofPairs_of_nodup hNodup
  rw [hAll]
  refine ⟨hKeys, fun member hm => ?_⟩
  obtain ⟨value, hZip, field, hField, hValue⟩ := hValues.exists_zip hm
  refine ⟨field, value, hField, hValue, (Entries.get?_eq_some_iff hNodup _ _).mpr ?_⟩
  rw [Entries.keys, List.zip_map_left]
  exact List.mem_map.mpr ⟨(member, value), hZip, rfl⟩

/-- Members that are evaluated or refused one by one are evaluated or refused
as a whole. -/
theorem evalMembers_ok_or_refused {p : Prop} {fields : List (Field Evaluator)} {path : Path}
    {members : List (String × Json)}
    (h : ∀ member ∈ members, ∃ field, findField? fields member.1 = some field ∧
      ((∃ value, field.schema (path.child (.field member.1)) member.2 = .ok value) ∨
        (p ∧ Refused (field.schema (path.child (.field member.1)) member.2))))
    (supplied : Entries Value) :
    (∃ all, evalMembers fields path supplied members = .ok all) ∨
      (p ∧ Refused (evalMembers fields path supplied members)) := by
  induction members generalizing supplied with
  | nil => exact .inl ⟨supplied, rfl⟩
  | cons member more ih =>
      rw [List.forall_mem_cons] at h
      obtain ⟨⟨field, hField, hFirst⟩, hMore⟩ := h
      rw [evalMembers, hField]
      rcases hFirst with ⟨value, hValue⟩ | ⟨hp, hRefused⟩
      · rcases ih hMore (supplied.insert field.name value) with ⟨all, hAll⟩ | ⟨hp, hRefused⟩
        · exact .inl ⟨all, bind_eq_ok_iff.mpr ⟨value, hValue, hAll⟩⟩
        · exact .inr ⟨hp, refused_bind_iff.mpr (.inr ⟨value, hValue, hRefused⟩)⟩
      · exact .inr ⟨hp, refused_bind_iff.mpr (.inl hRefused)⟩

/-- If the members of one order are all evaluated, then those of the other are too, with the same
value for each name. Only a refusal could come in between. -/
theorem evalMembers_follows {fields : List (Field Evaluator)}
    (hFields : ∀ field ∈ fields, OrderFree lenient false field.schema)
    {members members' : List (String × Json)} (hDistinct : (Entries.keys members).Nodup)
    (hKeys : (Entries.keys members).Perm (Entries.keys members'))
    (hItems : ∀ key item item', (key, item) ∈ members → (key, item') ∈ members' →
      item.Reordered item')
    {path : Path} {all : Entries Value} (h : evalMembers fields path [] members = .ok all) :
    (∃ all', evalMembers fields path [] members' = .ok all' ∧
        ∀ key, all.get? key = all'.get? key) ∨
      (lenient = true ∧ Refused (evalMembers fields path [] members')) := by
  obtain ⟨hAll, hMembers⟩ := evalMembers_get? hDistinct h
  have hPartner : ∀ member' ∈ members', ∃ field value,
      findField? fields member'.1 = some field ∧ all.get? member'.1 = some value ∧
        (field.schema (path.child (.field member'.1)) member'.2 = .ok value ∨
          (lenient = true ∧ Refused (field.schema (path.child (.field member'.1)) member'.2))) := by
    intro member' hm'
    obtain ⟨member, hm, hSame⟩ := List.mem_map.mp (hKeys.mem_iff.mpr (Entries.mem_keys hm'))
    obtain ⟨field, value, hField, hValue, hGet⟩ := hMembers member hm
    have hFollows := hFields field (List.mem_of_find?_eq_some hField)
      (path.child (.field member.1)) member.2 member'.2
      (hItems member.1 member.2 member'.2 hm (hSame ▸ hm'))
    rw [← hSame]
    exact ⟨field, value, hField, hGet, hFollows.ok value hValue⟩
  have hEach : ∀ member' ∈ members', ∃ field, findField? fields member'.1 = some field ∧
      ((∃ value, field.schema (path.child (.field member'.1)) member'.2 = .ok value) ∨
        (lenient = true ∧ Refused (field.schema (path.child (.field member'.1)) member'.2))) := by
    intro member' hm'
    obtain ⟨field, value, hField, _, hValue⟩ := hPartner member' hm'
    exact ⟨field, hField, hValue.imp_left fun h => ⟨value, h⟩⟩
  rcases evalMembers_ok_or_refused hEach [] with ⟨all', hAll'⟩ | hRefused
  · refine .inl ⟨all', hAll', fun key => ?_⟩
    obtain ⟨hSame, hMembers'⟩ := evalMembers_get? (hKeys.nodup_iff.mp hDistinct) hAll'
    by_cases hKey : key ∈ Entries.keys members'
    · obtain ⟨member', hm', rfl⟩ := List.mem_map.mp hKey
      obtain ⟨field, value, hField, hGet, hValue⟩ := hPartner member' hm'
      obtain ⟨field', value', hField', hValue', hGet'⟩ := hMembers' member' hm'
      cases hField.symm.trans hField'
      rcases hValue with hValue | ⟨_, error, hError, _⟩
      · cases hValue.symm.trans hValue'
        rw [hGet, hGet']
      · cases hError.symm.trans hValue'
    · rw [(Entries.get?_eq_none_iff all key).mpr fun hm => hKey (hKeys.mem_iff.mp (hAll ▸ hm)),
        (Entries.get?_eq_none_iff all' key).mpr fun hm => hKey (hSame ▸ hm)]
  · exact .inr hRefused

/-- An object whose fields treat values alike does so as well. If its failures
are watched, no constructor below a field may refuse, because another member
could have failed before. -/
theorem orderFree_object {object : ObjectSchema Evaluator}
    (hFields : ∀ field ∈ object.fields, OrderFree lenient false field.schema)
    (hWatched : watched = true → ∀ field ∈ object.fields, ∀ path value,
      ¬ Refused (field.schema path value)) :
    OrderFree lenient watched (evalObject object) := by
  intro path v w hReordered
  cases hReordered with
  | same _ => exact .refl _
  | array _ _ => exact .of_mild (.inl ⟨_, rfl⟩) _
  | @object members members' hDistinct hKeys hItems =>
      rw [evalObject_members, evalObject_members]
      have hNext {all : Entries Value} (h : evalMembers object.fields path [] members = .ok all) :=
        evalMembers_follows hFields hDistinct hKeys hItems h
      constructor
      · intro result h
        obtain ⟨all, hAll, hFinish⟩ := bind_eq_ok_iff.mp h
        rcases hNext hAll with ⟨all', hAll', hSame⟩ | ⟨hLenient, hRefused⟩
        · exact .inl (bind_eq_ok_iff.mpr ⟨all', hAll', finish_congr object path hSame ▸ hFinish⟩)
        · exact .inr ⟨hLenient, refused_bind_iff.mpr (.inl hRefused)⟩
      · intro hWatch hRefused
        rw [refused_bind_iff] at hRefused ⊢
        rcases hRefused with ⟨error, hError, hConstruction⟩ | ⟨all, hAll, hFinish⟩
        · rcases evalMembers_error hError with hOwn | ⟨member, _, field, hField, hItem⟩
          · exact absurd hConstruction hOwn.mild.not_construction
          · exact absurd ⟨error, hItem, hConstruction⟩
              (hWatched hWatch field (List.mem_of_find?_eq_some hField) _ _)
        · rcases hNext hAll with ⟨all', hAll', hSame⟩ | ⟨_, hRefused⟩
          · exact .inr ⟨all', hAll', finish_congr object path hSame ▸ hFinish⟩
          · exact .inl hRefused

end

/-- A schema under which it does not matter which of several failures comes
first. `watched` says that another alternative may be tried after a failure.
Then the constructors below the fields of an object must accept everything. -/
inductive Orderly : Bool → Schema → Prop
  | undefined {watched : Bool} (type : TypeExpr) : Orderly watched (.undefined type)
  | primitive {watched : Bool} (kind : Scalar) : Orderly watched (.primitive kind)
  | sequence {watched : Bool} {origin : Origin} {item : Schema} (hItem : Orderly watched item) :
      Orderly watched (.sequence origin item)
  | tuple {watched : Bool} {origin : Origin} {items : List Schema}
      (hItems : ∀ item ∈ items, Orderly watched item) : Orderly watched (.tuple origin items)
  | mapping {watched : Bool} (origin : Origin) (key value : Schema) :
      Orderly watched (.mapping origin key value)
  | union {watched : Bool} {options : List (Option Schema)}
      (hOptions : ∀ before schema after, options = before ++ some schema :: after →
        Orderly (watched || after.any Option.isSome) schema) : Orderly watched (.union options)
  | literal {watched : Bool} (options : List Constant) : Orderly watched (.literal options)
  | object {watched : Bool} {object : ObjectSchema Schema}
      (hFields : ∀ field ∈ object.fields, Orderly false field.schema)
      (hWatched : watched = true → ∀ field ∈ object.fields,
        field.schema.Everywhere ObjectSchema.Total) : Orderly watched (.object object)

/-- Where the constructors accept all arguments, every schema is orderly. -/
theorem orderly_of_total {schema : Schema} (h : schema.Everywhere ObjectSchema.Total)
    (watched : Bool) : Orderly watched schema := by
  induction h generalizing watched with
  | undefined type => exact .undefined type
  | primitive kind => exact .primitive kind
  | sequence _ ih => exact .sequence (ih watched)
  | tuple _ ih => exact .tuple fun item hm => ih item hm watched
  | mapping _ _ => exact .mapping _ _ _
  | union _ ih => exact .union fun before schema after he => ih schema (by simp [he]) _
  | literal options => exact .literal options
  | object _ hFields ih =>
      exact .object (fun field hm => ih field hm false) fun _ field hm => hFields field hm

/-- A lenient comparison asks nothing of the schema, a strict one that it is
orderly. -/
theorem orderFree_evalAt {lenient watched : Bool} {schema : Schema}
    (h : (lenient = true ∧ watched = false) ∨ Orderly watched schema) :
    OrderFree lenient watched (evalAt schema) := by
  induction schema using Schema.induction generalizing watched with
  | undefined type => exact fun path v w _ => .of_mild (.inr ⟨_, rfl⟩) _
  | primitive kind => exact orderFree_primitive kind
  | sequence origin item ih =>
      apply orderFree_sequence
      apply ih
      refine h.imp_right fun h => ?_
      cases h with
      | sequence hItem => exact hItem
  | tuple origin schemas ih =>
      apply orderFree_tuple
      intro schema hm
      apply ih schema hm
      refine h.imp_right fun h => ?_
      cases h with
      | tuple hItems => exact hItems schema hm
  | mapping origin key value _ _ => exact fun path v w _ => .of_mild (.inr ⟨_, rfl⟩) _
  | union options ih =>
      apply orderFree_union
      intro before schema after he
      have hOption : some schema ∈ options := by simp [he]
      rcases h with ⟨hLenient, hWatched⟩ | h
      · exact ⟨false, ih schema hOption (.inl ⟨hLenient, rfl⟩),
          fun h => absurd h (Bool.eq_false_iff.mp hWatched), fun _ => .inl hLenient⟩
      · cases h with
        | union hOptions =>
          refine ⟨_, ih schema hOption (.inr (hOptions before schema after he)), ?_, ?_⟩
          · intro h
            simp [h]
          · intro h
            simp [h]
  | literal options => exact orderFree_literal options
  | object object ih =>
      have hRun : evalAt (.object object) = evalObject (object.map evalAt) := by
        funext path value
        exact evalAt_object object path value
      have hFields : ∀ field ∈ object.fields, OrderFree lenient false (evalAt field.schema) := by
        intro field hm
        rcases h with ⟨hLenient, _⟩ | h
        · exact ih field hm (.inl ⟨hLenient, rfl⟩)
        · cases h with
          | object hFields _ => exact ih field hm (.inr (hFields field hm))
      rw [hRun]
      refine orderFree_object (List.forall_mem_map.mpr hFields) fun hWatched => ?_
      refine List.forall_mem_map.mpr fun field hm path value hRefused => ?_
      obtain ⟨error, hError, hConstruction⟩ := hRefused
      rcases h with ⟨_, hUnwatched⟩ | h
      · exact absurd hWatched (Bool.eq_false_iff.mp hUnwatched)
      · cases h with
        | object _ hTotal =>
          have hMild := evalAt_error_of_total (hTotal hWatched field hm) hError
          exact hMild.not_construction hConstruction

/-- The order of members decides nothing but which failure is reported, unless
a constructor refuses: values that differ in this order only have the same
results, except that the refusal of a constructor may come instead of one of
them. Under an orderly schema there is no exception. -/
theorem eval_reordered {schema : Schema} {v w : Json} (h : v.Reordered w) :
    (∀ result, eval schema v = .ok result → eval schema w = .ok result ∨
      ∃ name refusal, eval schema w = .error (.construction name refusal)) ∧
    (∀ result, eval schema w = .ok result → eval schema v = .ok result ∨
      ∃ name refusal, eval schema v = .error (.construction name refusal)) ∧
    (schema.Orderly false → ∀ result, eval schema v = .ok result ↔ eval schema w = .ok result) := by
  have hLenient {v w : Json} (h : v.Reordered w) (result : Value)
      (hResult : eval schema v = .ok result) : eval schema w = .ok result ∨
        ∃ name refusal, eval schema w = .error (.construction name refusal) := by
    have hFree : OrderFree true false (evalAt schema) := orderFree_evalAt (.inl ⟨rfl, rfl⟩)
    rcases (hFree [] v w h).ok result hResult with hOk | ⟨_, error, hError, name, refusal, rfl⟩
    · exact .inl hOk
    · exact .inr ⟨name, refusal, hError⟩
  have hStrict {v w : Json} (hOrderly : schema.Orderly false) (h : v.Reordered w) (result : Value)
      (hResult : eval schema v = .ok result) : eval schema w = .ok result := by
    have hFree : OrderFree false false (evalAt schema) := orderFree_evalAt (.inr hOrderly)
    rcases (hFree [] v w h).ok result hResult with hOk | ⟨hFalse, _⟩
    · exact hOk
    · cases hFalse
  refine ⟨hLenient h, hLenient h.symm, fun hOrderly result => ?_⟩
  exact ⟨hStrict hOrderly h result, hStrict hOrderly h.symm result⟩

/-- A record of which the members are given in another order than that of its fields. -/
theorem eval_reordered_record :
    eval (.object ⟨"Point", .record "Point" [], none, [],
        [⟨"x", .primitive .int, none, true⟩, ⟨"label", .primitive .str, none, false⟩]⟩)
      (.object [("label", .str "home"), ("x", .int 3)]) =
        .ok (.record "Point" [("x", .int 3), ("label", .str "home")]) := by
  have hReordered := Json.reordered_of_perm (by decide)
    (List.Perm.swap ("label", Json.str "home") ("x", Json.int 3) [])
  have hTotal : (ObjectSchema.mk "Point" (.record "Point" []) none []
      [⟨"x", .primitive .int, none, true⟩, ⟨"label", .primitive .str, none, false⟩]).Total :=
    fun args => ⟨_, rfl⟩
  have hEverywhere := Everywhere.object hTotal fun field hm => by
    rcases List.mem_pair.mp hm with rfl | rfl
    · exact .primitive .int
    · exact .primitive .str
  exact ((eval_reordered hReordered).2.2 (orderly_of_total hEverywhere _) _).mp rfl

/-- Under the first alternative the refusal of a constructor comes before or
after the mismatch that lets the union go on. -/
theorem member_order_matters :
    ¬ ∀ (schema : Schema) (v w : Json), v.Reordered w →
      ((∃ result, eval schema v = .ok result) ↔ ∃ result, eval schema w = .ok result) := by
  intro h
  have hCase := h
    (.union [
      some (.object ⟨"A", .record "A" [], none, [],
        [⟨"a", .object ⟨"Boom", fun _ => .error (.of "boom"), none, [], []⟩, none, true⟩,
          ⟨"b", .primitive .int, none, true⟩]⟩),
      some (.object ⟨"B", .record "B" [], none, [],
        [⟨"a", .object ⟨"Plain", .record "Plain" [], none, [], []⟩, none, true⟩,
          ⟨"b", .primitive .str, none, true⟩]⟩)])
    (.object [("b", .str "s"), ("a", .object [])]) (.object [("a", .object []), ("b", .str "s")])
    (Json.reordered_of_perm (by decide) (.swap _ _ _))
  obtain ⟨result, hResult⟩ := hCase.mp ⟨_, rfl⟩
  cases hResult

end ToolSchema.Schema
