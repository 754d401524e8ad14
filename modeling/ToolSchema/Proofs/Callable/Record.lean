import Mathlib.Data.List.TakeWhile
import ToolSchema.Proofs.Callable.Declaration
import ToolSchema.Proofs.Extraction.Extractor
import ToolSchema.Proofs.Schema.Objects

/-! Where the default constructor files the arguments of a call. The names of
what is passed by position come from the initializer with its receiver, while
the values come from a schema without it. -/
namespace ToolSchema

open Signature (receiver)

/-- What the constructor of records stores. -/
def recordFields (positionalNames : List String) (args : Arguments) : Entries Value :=
  (Entries.ofPairs (positionalNames.zip args.positional)).insertAll args.keyword

/-- Arguments for parameters with these names. -/
theorem arguments_eq {object : ObjectSchema Schema} {named : List String}
    (hNames : object.fields.map (·.name) = object.positionalOnly ++ named)
    (hDistinct : object.DistinctNames) (supplied : Entries Value) :
    object.arguments supplied =
      ⟨object.positionalOnly.filterMap supplied.get?, supplied.select named⟩ := by
  rw [ObjectSchema.DistinctNames, hNames, List.nodup_append] at hDistinct
  have hOther : ∀ name ∈ named, name ∉ object.positionalOnly := fun name hm hPositional =>
    hDistinct.2.2 name hPositional name hm rfl
  have hPositional : (object.fields.filterMap fun field =>
      if field.name ∈ object.positionalOnly then supplied.get? field.name else none) =
        object.positionalOnly.filterMap supplied.get? := by
    change object.fields.filterMap ((fun name => if name ∈ object.positionalOnly then
      supplied.get? name else none) ∘ fun field => field.name) = _
    rw [← List.filterMap_map, hNames, List.filterMap_append,
      List.filterMap_congr fun name hm => if_pos hm,
      List.filterMap_congr fun name hm => if_neg (hOther name hm), List.filterMap_none,
      List.append_nil]
  have hNamed : (object.fields.filterMap fun field =>
      if field.name ∈ object.positionalOnly then none
      else (supplied.get? field.name).map (field.name, ·)) = supplied.select named := by
    change object.fields.filterMap ((fun name => if name ∈ object.positionalOnly then none
      else (supplied.get? name).map (name, ·)) ∘ fun field => field.name) = _
    rw [← List.filterMap_map, hNames, List.filterMap_append,
      List.filterMap_congr fun name hm => if_pos hm,
      List.filterMap_congr fun name hm => if_neg (hOther name hm), List.filterMap_none,
      List.nil_append]
    rfl
  rw [ObjectSchema.arguments, hPositional, hNamed]

/-- With the names of the parameters the record has all values under their own
names. -/
theorem recordFields_eq_select {positional named : List String}
    (hDistinct : (positional ++ named).Nodup) {supplied : Entries Value}
    (hGap : positional.Pairwise fun earlier later =>
      later ∈ supplied.keys → earlier ∈ supplied.keys) :
    recordFields positional ⟨positional.filterMap supplied.get?, supplied.select named⟩ =
      supplied.select (positional ++ named) := by
  have hKeys : (supplied.select positional ++ supplied.select named).keys.Nodup := by
    rw [← Entries.select_append, Entries.keys_select]
    exact hDistinct.sublist List.filter_sublist
  have hFirst : (supplied.select positional).keys.Nodup := by
    rw [Entries.keys_append] at hKeys
    exact hKeys.sublist (List.sublist_append_left _ _)
  rw [recordFields, Entries.zip_filterMap_get? hGap, Entries.ofPairs_of_nodup hFirst,
    Entries.insertAll_of_nodup hKeys, Entries.select_append]

/-- With the receiver among the names, everything that is passed by position
after it is filed under the name before its own. -/
theorem recordFields_with_receiver_iff {before after named : List String}
    (hDistinct : ((before ++ after) ++ named).Nodup)
    (hReceiver : receiver ∉ (before ++ after) ++ named) {supplied : Entries Value}
    (hGap : (before ++ after).Pairwise fun earlier later =>
      later ∈ supplied.keys → earlier ∈ supplied.keys) :
    recordFields (before ++ receiver :: after)
        ⟨(before ++ after).filterMap supplied.get?, supplied.select named⟩ =
      supplied.select ((before ++ after) ++ named) ↔ ∀ name ∈ after, name ∉ supplied.keys := by
  constructor
  · intro he name hm hGiven
    have hBefore : ∀ earlier ∈ before, earlier ∈ supplied.keys := fun earlier hEarlier =>
      (List.pairwise_append.mp hGap).2.2 earlier hEarlier name hm hGiven
    have hLength : before.length < ((before ++ after).filterMap supplied.get?).length := by
      have hAll : (before.filterMap supplied.get?).length = before.length :=
        List.filterMap_length_eq_length.mpr fun earlier hm =>
          (Entries.get?_isSome_iff _ _).mpr (hBefore earlier hm)
      have hSome : 0 < (after.filterMap supplied.get?).length :=
        List.length_filterMap_pos_iff.mpr ⟨name, hm, Option.isSome_iff_exists.mp
          ((Entries.get?_isSome_iff _ _).mpr hGiven)⟩
      rw [List.filterMap_append, List.length_append]
      omega
    obtain ⟨value, hZip⟩ := List.exists_mem_zip_append hLength receiver after
    have hKey : receiver ∈ (recordFields (before ++ receiver :: after)
        ⟨(before ++ after).filterMap supplied.get?, supplied.select named⟩).keys := by
      rw [recordFields, Entries.mem_keys_insertAll, Entries.mem_keys_ofPairs]
      exact .inl (Entries.mem_keys hZip)
    rw [he, Entries.keys_select] at hKey
    exact hReceiver (List.mem_filter.mp hKey).1
  · intro hNone
    rw [← recordFields_eq_select hDistinct hGap, recordFields, recordFields]
    have hEmpty : after.filterMap supplied.get? = [] :=
      List.filterMap_eq_nil_iff.mpr fun name hm =>
        (Entries.get?_eq_none_iff _ _).mpr (hNone name hm)
    have hLength : ((before ++ after).filterMap supplied.get?).length ≤ before.length := by
      rw [List.filterMap_append, hEmpty, List.append_nil]
      exact List.length_filterMap_le _ _
    rw [List.zip_append_of_length_le hLength, List.zip_append_of_length_le hLength]

/-- The names of the parameters that come after the receiver and can be passed
by position only. A callable with its own signature has no receiver to leave
out. -/
def Declaration.displaced (declaration : Declaration) : List String :=
  match declaration.signature, declaration.initializer with
  | none, some init => (init.signature.positionalOnly.dropWhile (· != receiver)).tail
  | _, _ => []

/-- Leaving out the receiver divides the names of what is passed by position. -/
theorem filter_receiver {names : List String} (hDistinct : names.Nodup)
    (hReceiver : receiver ∈ names) :
    ∃ before, names = before ++ receiver :: (names.dropWhile (· != receiver)).tail ∧
      names.filter (· != receiver) = before ++ (names.dropWhile (· != receiver)).tail := by
  obtain ⟨before, after, rfl, hBefore⟩ := List.eq_append_cons_of_mem hReceiver
  have hOther {name : String} (hm : name ∈ before) : (name != receiver) = true :=
    bne_iff_ne.mpr fun he => hBefore (he ▸ hm)
  have hDrop : (before ++ receiver :: after).dropWhile (· != receiver) = receiver :: after := by
    rw [List.dropWhile_append_of_pos fun name hm => hOther hm]
    exact List.dropWhile_cons_of_neg (by simp)
  have hAfter : receiver ∉ after :=
    (List.nodup_cons.mp (List.nodup_append.mp hDistinct).2.1).1
  refine ⟨before, by rw [hDrop, List.tail_cons], ?_⟩
  rw [hDrop, List.tail_cons, List.filter_append, List.filter_eq_self.mpr fun name hm => hOther hm,
    List.filter_cons_of_neg (by simp)]
  exact congrArg _ (List.filter_eq_self.mpr fun name hm => bne_iff_ne.mpr fun he => hAfter (he ▸ hm))

/-- The names in the record are those of the schema, or the receiver stands
among them. -/
theorem positionalNames_cases {declaration : Declaration} {callable : Callable}
    (hBuild : declaration.build = .ok callable) {signature : Signature}
    (hSignature : callable.callSignature? = some signature) :
    signature.WellFormed ∧
      ((declaration.positionalNames = signature.positionalOnly ∧ declaration.displaced = []) ∨
        ∃ before, declaration.positionalNames = before ++ receiver :: declaration.displaced ∧
          signature.positionalOnly = before ++ declaration.displaced ∧
          receiver ∉ signature.params.map (·.name)) := by
  obtain ⟨rfl, hOwn, hInit⟩ := Declaration.build_ok hBuild
  obtain ⟨name, kind, doc, own, initializer, construct, backing⟩ := declaration
  cases own with
  | some own =>
      cases hSignature
      exact ⟨hOwn _ rfl, .inl ⟨rfl, rfl⟩⟩
  | none =>
      cases initializer with
      | none => cases hSignature
      | some init =>
          cases hSignature
          have hFormed := hInit init rfl
          refine ⟨hFormed.withoutReceiver, ?_⟩
          have hPositional := init.signature.positionalOnly_withoutReceiver
          by_cases hReceiver : receiver ∈ init.signature.positionalOnly
          · have hNodup : init.signature.positionalOnly.Nodup := by
              have hAll := hFormed.distinct
              rw [hFormed.names_eq] at hAll
              exact hAll.sublist (List.sublist_append_left _ _)
            obtain ⟨before, hNames, hFilter⟩ := filter_receiver hNodup hReceiver
            exact .inr ⟨before, hNames, hPositional.trans hFilter,
              init.signature.receiver_not_mem_withoutReceiver⟩
          · have hOther : ∀ name ∈ init.signature.positionalOnly, (name != receiver) = true :=
              fun name hm => bne_iff_ne.mpr fun he => hReceiver (he ▸ hm)
            refine .inl ⟨?_, ?_⟩
            · rw [hPositional, List.filter_eq_self.mpr hOther]
              rfl
            · change (init.signature.positionalOnly.dropWhile (· != receiver)).tail = []
              rw [List.dropWhile_eq_nil_iff.mpr hOther, List.tail_nil]

/-- The supplied members as they should be filed: each under its own name with
what its field makes of it, in the order of the parameters. -/
structure Filed (signature : Signature) (fields : List (Field Schema))
    (members : List (String × Json)) (filed : Entries Value) : Prop where
  supplied : ∀ name, name ∈ filed.keys ↔ name ∈ Entries.keys members
  ordered : filed.keys.Sublist (signature.params.map (·.name))
  evaluated : ∀ name value, (name, value) ∈ filed → ∃ field ∈ fields, field.name = name ∧
    ∃ item, (Entries.ofPairs members).get? name = some item ∧
      Schema.evalAt field.schema [.field name] item = .ok value

/-- Freedom from gaps as a statement about the positional-only names alone. -/
theorem ObjectSchema.GapFree.positional {object : ObjectSchema Schema} {given named : List String}
    (h : object.GapFree given)
    (hNames : object.fields.map (·.name) = object.positionalOnly ++ named) :
    object.positionalOnly.Pairwise fun earlier later => later ∈ given → earlier ∈ given := by
  have hAll : (object.fields.map (·.name)).Pairwise fun earlier later =>
      earlier ∈ object.positionalOnly → later ∈ object.positionalOnly →
        later ∈ given → earlier ∈ given := List.pairwise_map.mpr h
  rw [hNames] at hAll
  refine List.Pairwise.imp_of_mem ?_ (List.pairwise_append.mp hAll).1
  intro earlier later hEarlier hLater hGap
  exact hGap hEarlier hLater

/-- The supplied members in the order of the parameters are filed as they should be. -/
theorem filed_select {signature : Signature} {object : ObjectSchema Schema}
    {members : List (String × Json)} {values : List Value}
    (hNames : object.fields.map (·.name) = signature.params.map (·.name))
    (hValues : List.Forall₂ (fun member value => ∃ field ∈ object.fields, field.name = member.1 ∧
      Schema.evalAt field.schema [.field member.1] member.2 = .ok value) members values) :
    Filed signature object.fields members
      ((Entries.ofPairs ((Entries.keys members).zip values)).select
        (signature.params.map (·.name))) := by
  have hKeys := Entries.mem_keys_ofPairs_zip hValues.length_eq
  refine ⟨fun name => ?_, ?_, fun name value hm => ?_⟩
  · rw [Entries.keys_select, List.mem_filter, decide_eq_true_eq, hKeys]
    refine ⟨And.right, fun hm => ⟨?_, hm⟩⟩
    obtain ⟨member, hMember, rfl⟩ := List.mem_map.mp hm
    obtain ⟨value, _, field, hField, hName, _⟩ := hValues.exists_right hMember
    rw [← hNames, ← hName]
    exact List.mem_map_of_mem hField
  · rw [Entries.keys_select]
    exact List.filter_sublist
  · rw [Entries.mem_select] at hm
    obtain ⟨item, hItem, field, hField, hName, hValue⟩ := Entries.get?_ofPairs_zip hValues hm.2
    exact ⟨field, hField, hName, item, hItem, hValue⟩

/-- The record of the default constructor has every supplied member under its
own name, unless one of them is passed by position and stands after the
receiver of an initializer. -/
theorem eval_eq_record_iff {extractor : Extractor} {catalog : Catalog} {declaration : Declaration}
    {callable : Callable} {schema : CallableSchema} {value : Json} {result : Value}
    (hDefault : declaration.construct = none) (hBuild : declaration.build = .ok callable)
    (hUnclaimed : extractor.claim callable = .ok none)
    (hExtract : extractor.extract catalog callable = .ok schema)
    (hEval : schema.eval value = .ok result) :
    ∃ signature members filed, callable.callSignature? = some signature ∧
      value = .object members ∧ Filed signature schema.call.fields members filed ∧
      (result = .record callable.name filed ↔
        ∀ name ∈ declaration.displaced, name ∉ Entries.keys members) := by
  obtain ⟨signature, hSignature, hConstruct, hPositional, hFields⟩ :=
    Extractor.extract_unclaimed hUnclaimed hExtract
  obtain ⟨hFormed, hCases⟩ := positionalNames_cases hBuild hSignature
  have hNames : schema.call.fields.map (·.name) = signature.params.map (·.name) :=
    (hFields.imp fun _ _ h => h.1).map_eq.symm
  have hSplit : schema.call.fields.map (·.name) = schema.call.positionalOnly ++ signature.named := by
    rw [hNames, hPositional, hFormed.names_eq]
  have hDistinct : schema.call.DistinctNames := by
    rw [ObjectSchema.DistinctNames, hNames]
    exact hFormed.distinct
  obtain ⟨members, rfl⟩ := Schema.value_of_evalAt_object hEval
  obtain ⟨values, hValues, -, hGapFree, hResult⟩ :=
    (Schema.evalAt_object_eq_ok_iff hDistinct [] members result).mp hEval
  refine ⟨signature, members, _, hSignature, rfl, filed_select hNames hValues, ?_⟩
  have hKeys := Entries.mem_keys_ofPairs_zip hValues.length_eq
  have hGap := ((schema.call.gapFree_congr hKeys).mpr hGapFree).positional hSplit
  obtain ⟨hCallable, -, -⟩ := Declaration.build_ok hBuild
  rw [hConstruct, hCallable, hDefault, arguments_eq hSplit hDistinct] at hResult
  cases hResult
  have hName : callable.name = declaration.name := by rw [hCallable]
  rw [hPositional] at hGap ⊢
  have hNodup : (signature.positionalOnly ++ signature.named).Nodup :=
    hFormed.names_eq ▸ hFormed.distinct
  rw [hName, Value.record.injEq, and_iff_right rfl, hFormed.names_eq]
  change recordFields _ _ = _ ↔ _
  rcases hCases with ⟨hSame, hNone⟩ | ⟨before, hNames, hBefore, hReceiver⟩
  · rw [hSame, hNone, recordFields_eq_select hNodup hGap]
    exact iff_of_true rfl nofun
  · rw [hFormed.names_eq] at hReceiver
    rw [hBefore] at hNodup hGap hReceiver ⊢
    rw [hNames, recordFields_with_receiver_iff hNodup hReceiver hGap]
    exact forall₂_congr fun name _ => not_congr (hKeys name)

/-- A point with one coordinate, which is stored under its own name. -/
theorem eval_eq_record_of_point : ∃ filed,
    Filed ⟨[⟨"x", .positionalOrKeyword, some .int, false⟩], none⟩
        [⟨"x", .primitive .int, none, true⟩] [("x", .int 3)] filed ∧
      Value.record "Point" [("x", .int 3)] = .record "Point" filed := by
  obtain ⟨signature, members, filed, hSignature, hMembers, hFiled, hIff⟩ :=
    @eval_eq_record_iff [] [] ⟨"Point", .classDef, none, none, some ⟨none,
        ⟨[⟨"self", .positionalOnly, none, false⟩, ⟨"x", .positionalOrKeyword, some .int, false⟩],
          none⟩⟩, none, none⟩ _ _ (.object [("x", .int 3)]) _ rfl rfl rfl rfl rfl
  cases hSignature
  cases hMembers
  exact ⟨filed, hFiled, hIff.mpr nofun⟩

/-- The only argument of this class is filed under the name of the receiver. -/
theorem receiver_displaces_argument :
    ¬ ∀ (extractor : Extractor) (catalog : Catalog) (declaration : Declaration)
        (callable : Callable) (schema : CallableSchema) (value : Json) (result : Value),
      declaration.construct = none → declaration.build = .ok callable →
      extractor.claim callable = .ok none → extractor.extract catalog callable = .ok schema →
      schema.eval value = .ok result →
      ∃ signature members filed, callable.callSignature? = some signature ∧
        value = .object members ∧ Filed signature schema.call.fields members filed ∧
        result = .record callable.name filed := by
  intro h
  obtain ⟨signature, members, filed, -, hMembers, hFiled, hResult⟩ :=
    h [] [] ⟨"Point", .classDef, none, none, some ⟨none,
        ⟨[⟨"self", .positionalOnly, none, false⟩, ⟨"x", .positionalOnly, some .int, false⟩],
          none⟩⟩, none, none⟩ _ _ (.object [("x", .int 3)]) _ rfl rfl rfl rfl rfl
  cases hMembers
  have hFields : recordFields ["self", "x"] ⟨[.int 3], []⟩ = filed := (Value.record.inj hResult).2
  subst hFields
  have hReceiver := (hFiled.supplied receiver).mp (by decide)
  exact absurd hReceiver (by decide)

end ToolSchema
