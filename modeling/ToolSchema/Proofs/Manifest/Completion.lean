import ToolSchema.Proofs.Callable.Record
import ToolSchema.Proofs.Extraction.WellFormed
import ToolSchema.Proofs.Manifest.Resolved
import ToolSchema.Proofs.Schema.Places

/-! The records that calls of a manifest end in. They are complete: every declared
parameter is there, in order, with what was supplied for it or else with its default. -/
namespace ToolSchema

/-! Defaults -/

/-- Integers fit in 64 bits with sign, and floats are finite, as all that are written
are. -/
inductive Json.Exact : Json → Prop
  | null : Exact .null
  | bool (value : Bool) : Exact (.bool value)
  | int {n : Int} (h : Int64.minValue.toInt ≤ n ∧ n ≤ Int64.maxValue.toInt) : Exact (.int n)
  | float {x : Binary64} (h : x.isFinite = true) : Exact (.float x)
  | str (text : String) : Exact (.str text)
  | array {items : List Json} (h : ∀ item ∈ items, Exact item) : Exact (.array items)
  | object {members : List (String × Json)} (h : ∀ member ∈ members, Exact member.2) :
      Exact (.object members)

/-- Values that were made of JSON are rendered as what they were made of, by their items and
members. -/
theorem Value.toJsonItems_ofItems {items : List Json}
    (h : ∀ item ∈ items, (Value.ofJson item).toJson = item) :
    toJsonItems (ofItems items) = items := by
  induction items with
  | nil => rfl
  | cons item more ih =>
      rw [List.forall_mem_cons] at h
      rw [ofItems, toJsonItems, h.1, ih h.2]

theorem Value.toJsonFields_ofMembers {members : List (String × Json)}
    (h : ∀ member ∈ members, (Value.ofJson member.2).toJson = member.2) :
    toJsonFields (ofMembers members) = members := by
  induction members with
  | nil => rfl
  | cons member more ih =>
      rw [List.forall_mem_cons] at h
      rw [ofMembers, toJsonFields, h.1, ih h.2]

/-- A default is written back as it was written. -/
theorem Value.toJson_ofJson {json : Json} (h : json.Exact) : (Value.ofJson json).toJson = json := by
  induction h with
  | null => rfl
  | bool _ => rfl
  | @int n h =>
      have hBelow : n < 2 ^ 63 := Int.lt_add_one_of_le h.2
      rw [ofJson, Json.int64?, if_pos h, toJson, Int64.toInt_ofInt_of_le h.1 hBelow]
  | float h => rw [ofJson, toJson, if_pos h]
  | str _ => rfl
  | array _ ih => rw [ofJson, toJson, toJsonItems_ofItems ih]
  | object _ ih => rw [ofJson, toJson, toJsonFields_ofMembers ih]

/-! Filling -/

namespace RecordField

/-- What a field holds: what was supplied under its name, or else the default. -/
def content (supplied : Entries Value) (field : RecordField) : Option Value :=
  (supplied.get? field.name).or field.default

/-- The fields that hold something. -/
def complete (supplied : Entries Value) (fields : List RecordField) : Entries Value :=
  fields.filterMap fun field => (field.content supplied).map (field.name, ·)

/-- The names of the fields that are passed by position. -/
def positionalNames (fields : List RecordField) : List String :=
  (fields.filter (·.positionalOnly)).map (·.name)

/-- Without a gap among what is passed by position, every field is filled from what was
supplied under its name, and a default does not shift what comes after it. -/
theorem fill_eq {fields : List RecordField} {supplied keyword : Entries Value}
    (hGap : (positionalNames fields).Pairwise fun earlier later =>
      later ∈ supplied.keys → earlier ∈ supplied.keys)
    (hKeyword : ∀ field ∈ fields, field.positionalOnly = false →
      keyword.get? field.name = supplied.get? field.name) :
    fill ((positionalNames fields).filterMap supplied.get?) keyword fields =
      complete supplied fields := by
  induction fields with
  | nil => rfl
  | cons field more ih =>
      rw [List.forall_mem_cons] at hKeyword
      rw [complete, List.filterMap_cons, content, fill]
      cases hPositional : field.positionalOnly with
      | false =>
          have hNames : positionalNames (field :: more) = positionalNames more := by
            rw [positionalNames, List.filter_cons_of_neg (by simpa using hPositional)]
            rfl
          rw [hNames] at hGap ⊢
          have hMore := ih hGap hKeyword.2
          simp only [Bool.false_eq_true, if_false, hKeyword.1 hPositional, hMore]
          cases (supplied.get? field.name).or field.default <;> rfl
      | true =>
          have hNames : positionalNames (field :: more) = field.name :: positionalNames more := by
            rw [positionalNames, List.filter_cons_of_pos hPositional]
            rfl
          rw [hNames, List.pairwise_cons] at hGap
          have hMore := ih hGap.2 hKeyword.2
          rw [hNames, List.filterMap_cons]
          cases hGiven : supplied.get? field.name with
          | some value => simp [hMore, complete]
          | none =>
              -- Nothing is left that could be passed by position.
              have hNone : (positionalNames more).filterMap supplied.get? = [] :=
                List.filterMap_eq_nil_iff.mpr fun later hm =>
                  (Entries.get?_eq_none_iff _ _).mpr fun hLater =>
                    (Entries.get?_eq_none_iff _ _).mp hGiven (hGap.1 later hm hLater)
              rw [hNone] at hMore ⊢
              simp only [if_true, List.head?_nil, List.tail_nil, Option.none_or, hMore]
              cases field.default <;> rfl

/-- If every field holds something, then the record has all fields, in order. -/
theorem keys_complete {fields : List RecordField} {supplied : Entries Value}
    (h : ∀ field ∈ fields, ∃ value, field.content supplied = some value) :
    (complete supplied fields).keys = fields.map (·.name) := by
  induction fields with
  | nil => rfl
  | cons field more ih =>
      rw [List.forall_mem_cons] at h
      obtain ⟨⟨value, hValue⟩, hMore⟩ := h
      rw [complete, List.filterMap_cons, hValue, List.map_cons, ← ih hMore]
      rfl

/-- A field holds what was supplied for it, or its default. -/
theorem get?_complete {fields : List RecordField} {supplied : Entries Value}
    (hDistinct : (complete supplied fields).keys.Nodup) {field : RecordField} (hm : field ∈ fields)
    {value : Value} (h : field.content supplied = some value) :
    (complete supplied fields).get? field.name = some value :=
  (Entries.get?_eq_some_iff hDistinct _ _).mpr
    (List.mem_filterMap.mpr ⟨field, hm, by rw [h, Option.map_some]⟩)

end RecordField

/-! Evaluation -/

/-- The record that a call of parameters with these declarations should end in. -/
structure Completed (params : List ParamDecl) (fields : List (Field Schema))
    (members : List (String × Json)) (record : Entries Value) : Prop where
  keys : record.keys = params.map (·.name)
  supplied : ∀ name item, (Entries.ofPairs members).get? name = some item →
    ∃ field ∈ fields, field.name = name ∧ ∃ value, field.schema.eval item = .ok value ∧
      record.get? name = some value
  omitted : ∀ param ∈ params, param.name ∉ Entries.keys members →
    ∃ default, param.default = some default ∧ record.get? param.name = some (.ofJson default) ∧
      (default.Exact → (Value.ofJson default).toJson = default)

/-- The parameter is the declared one, with whatever type. -/
def ParamDecl.Gives (decl : ParamDecl) (param : Parameter) : Prop :=
  ∃ type, param = ⟨decl.name, decl.passing, type, decl.default.isSome⟩

/-- The callable has the declared parameters and builds records that know their
defaults. -/
structure Callable.HasParams (callable : Callable) (name : String) (decls : List ParamDecl) :
    Prop where
  construct : callable.construct = .recordWithDefaults name (decls.map Manifest.fieldOf)
  backing : callable.backing = none
  params {signature : Signature} (h : callable.callSignature? = some signature) :
    List.Forall₂ ParamDecl.Gives decls signature.params
  built : callable.Built

/-- Every parameter of the callable is the declared one. -/
theorem gives_of_paramOf {names : Entries TypeExpr} {decls : List ParamDecl}
    {params : List Parameter}
    (h : List.Forall₂ (fun decl param => Manifest.paramOf names decl = .ok param) decls params) :
    List.Forall₂ ParamDecl.Gives decls params := by
  refine h.imp fun decl param hParam => ?_
  obtain ⟨type, _, rfl⟩ := Plan.paramOf_eq_ok_iff.mp hParam
  exact ⟨type, rfl⟩

/-- A record class takes its fields as parameters, and a function has parameters of its own. -/
theorem TypeDecl.hasParams {decl : TypeDecl} {names : Entries TypeExpr} {callable : Callable}
    (h : decl.plan.build names = .ok callable) : callable.HasParams decl.name decl.fields := by
  obtain ⟨_, _, _, _, hBuilt⟩ := Plan.build_eq_ok_iff.mp h
  obtain ⟨params, hParams, rfl⟩ := TypeDecl.build_ok h
  refine ⟨rfl, rfl, fun {signature} hSignature => ?_, _, hBuilt⟩
  rw [Callable.callSignature?, Option.map_none, Option.or_none] at hSignature
  split at hSignature
  · cases hSignature
  · cases hSignature
    exact gives_of_paramOf hParams

theorem FunctionDecl.hasParams {decl : FunctionDecl} {names : Entries TypeExpr}
    {callable : Callable} (h : decl.plan.build names = .ok callable) :
    callable.HasParams decl.name decl.params := by
  obtain ⟨_, _, _, _, hBuilt⟩ := Plan.build_eq_ok_iff.mp h
  obtain ⟨params, returns, hParams, _, rfl⟩ := FunctionDecl.build_ok h
  refine ⟨rfl, rfl, fun {signature} hSignature => ?_, _, hBuilt⟩
  cases hSignature
  exact gives_of_paramOf hParams

/-- The constructor files positional arguments under the names that the signature passes by
position. -/
theorem positionalNames_fieldOf {decls : List ParamDecl} {signature : Signature}
    (h : List.Forall₂ ParamDecl.Gives decls signature.params) :
    RecordField.positionalNames (decls.map Manifest.fieldOf) = signature.positionalOnly := by
  have hSame (decl : ParamDecl) (param : Parameter) (hGives : decl.Gives param) :
      decl.passing == .positionalOnly ↔ param.passing == .positionalOnly := by
    obtain ⟨type, rfl⟩ := hGives
    exact Iff.rfl
  have hNames : ∀ decl param, ParamDecl.Gives decl param → decl.name = param.name := by
    intro decl param hGives
    obtain ⟨type, rfl⟩ := hGives
    rfl
  rw [RecordField.positionalNames, List.filter_map, List.map_map]
  exact ((List.rel_filter hSame h).imp hNames).map_eq

/-- Arguments are filed under the names of their parameters, and defaults fill the
rest. -/
theorem fill_arguments {decls : List ParamDecl} {signature : Signature}
    (hFormed : signature.WellFormed) (hParams : List.Forall₂ ParamDecl.Gives decls signature.params)
    {supplied : Entries Value}
    (hGap : signature.positionalOnly.Pairwise fun earlier later =>
      later ∈ supplied.keys → earlier ∈ supplied.keys) :
    RecordField.fill (signature.positionalOnly.filterMap supplied.get?)
        (supplied.select signature.named) (decls.map Manifest.fieldOf) =
      RecordField.complete supplied (decls.map Manifest.fieldOf) := by
  have hDistinct : signature.named.Nodup := by
    have hAll := hFormed.distinct
    rw [hFormed.names_eq] at hAll
    exact hAll.sublist (List.sublist_append_right _ _)
  rw [← positionalNames_fieldOf hParams] at hGap ⊢
  refine RecordField.fill_eq hGap fun field hm hByName => ?_
  obtain ⟨decl, hDecl, rfl⟩ := List.mem_map.mp hm
  obtain ⟨param, hParam, type, rfl⟩ := hParams.exists_right hDecl
  have hPassing : (decl.passing != .positionalOnly) = true := by
    rw [bne, show (decl.passing == .positionalOnly) = false from hByName, Bool.not_false]
  exact Entries.get?_select supplied hDistinct
    (List.mem_map.mpr ⟨_, List.mem_filter.mpr ⟨hParam, hPassing⟩, rfl⟩)

/-- What a field holds, for the two cases of the record that is expected. -/
theorem ParamDecl.content_of_supplied {decl : ParamDecl} {supplied : Entries Value} {value : Value}
    (h : supplied.get? decl.name = some value) :
    (Manifest.fieldOf decl).content supplied = some value := by
  rw [RecordField.content, Manifest.fieldOf, h, Option.some_or]

theorem ParamDecl.content_of_omitted {decl : ParamDecl} {supplied : Entries Value}
    (h : decl.name ∉ supplied.keys) :
    (Manifest.fieldOf decl).content supplied = decl.default.map Value.ofJson := by
  rw [RecordField.content, Manifest.fieldOf, (Entries.get?_eq_none_iff _ _).mpr h, Option.none_or]

/-- The record is complete if every parameter without a default is supplied. -/
theorem completed_complete {decls : List ParamDecl} {fields : List (Field Schema)}
    {members : List (String × Json)} {values : List Value}
    (hNames : fields.map (·.name) = decls.map (·.name)) (hDistinct : (decls.map (·.name)).Nodup)
    (hRequired : ∀ decl ∈ decls, decl.default = none → decl.name ∈ Entries.keys members)
    (hValues : List.Forall₂ (fun member value => ∃ field ∈ fields, field.name = member.1 ∧
      Schema.evalAt field.schema [.field member.1] member.2 = .ok value) members values) :
    Completed decls fields members (RecordField.complete
      (Entries.ofPairs ((Entries.keys members).zip values)) (decls.map Manifest.fieldOf)) := by
  generalize hSupplied : Entries.ofPairs ((Entries.keys members).zip values) = supplied
  have hKeys (name : String) : name ∈ supplied.keys ↔ name ∈ Entries.keys members :=
    hSupplied ▸ Entries.mem_keys_ofPairs_zip hValues.length_eq name
  have hGiven {name : String} (hm : name ∈ supplied.keys) :
      ∃ value, supplied.get? name = some value :=
    Option.isSome_iff_exists.mp ((Entries.get?_isSome_iff _ _).mpr hm)
  have hDefault (decl : ParamDecl) (hm : decl ∈ decls) (hOmitted : decl.name ∉ supplied.keys) :
      ∃ default, decl.default = some default :=
    Option.ne_none_iff_exists'.mp fun hNone =>
      hOmitted ((hKeys _).mpr (hRequired decl hm hNone))
  have hContent : ∀ field ∈ decls.map Manifest.fieldOf,
      ∃ value, field.content supplied = some value := by
    intro field hm
    obtain ⟨decl, hDecl, rfl⟩ := List.mem_map.mp hm
    by_cases hMember : decl.name ∈ supplied.keys
    · obtain ⟨value, hValue⟩ := hGiven hMember
      exact ⟨value, ParamDecl.content_of_supplied hValue⟩
    · obtain ⟨default, hSome⟩ := hDefault decl hDecl hMember
      exact ⟨_, (ParamDecl.content_of_omitted hMember).trans (congrArg _ hSome)⟩
  have hRecord : (RecordField.complete supplied (decls.map Manifest.fieldOf)).keys =
      decls.map (·.name) := by
    rw [RecordField.keys_complete hContent, List.map_map]
    rfl
  have hFound {decl : ParamDecl} (hm : decl ∈ decls) {value : Value}
      (hValue : (Manifest.fieldOf decl).content supplied = some value) :=
    RecordField.get?_complete (hRecord ▸ hDistinct) (List.mem_map_of_mem hm) hValue
  constructor
  · exact hRecord
  · intro name item hItem
    have hMember : name ∈ Entries.keys members :=
      (Entries.mem_keys_ofPairs _ _).mp (Entries.mem_keys (Entries.mem_of_get? hItem))
    obtain ⟨value, hValue⟩ := hGiven ((hKeys name).mpr hMember)
    obtain ⟨item', hItem', field, hField, hName, hEval⟩ :=
      Entries.get?_ofPairs_zip hValues (hSupplied ▸ hValue)
    cases hItem.symm.trans hItem'
    obtain ⟨decl, hDecl, rfl⟩ : ∃ decl ∈ decls, decl.name = name :=
      List.mem_map.mp (hNames ▸ List.mem_map.mpr ⟨field, hField, hName⟩)
    exact ⟨field, hField, hName, value, (Schema.evalAt_eq_ok_iff_eval _ _ _ _).mp hEval,
      hFound hDecl (ParamDecl.content_of_supplied hValue)⟩
  · intro decl hm hOmitted
    have hAbsent : decl.name ∉ supplied.keys := fun hGiven => hOmitted ((hKeys _).mp hGiven)
    obtain ⟨default, hSome⟩ := hDefault decl hm hAbsent
    exact ⟨default, hSome,
      hFound hm ((ParamDecl.content_of_omitted hAbsent).trans (congrArg _ hSome)),
      Value.toJson_ofJson⟩

/-- A call that succeeds ends in a complete record. -/
theorem Callable.HasParams.completed {callable : Callable} {name : String} {decls : List ParamDecl}
    (h : callable.HasParams name decls) {extractor : Extractor} {catalog : Catalog}
    {schema : CallableSchema} (hTemporal : extractor.AtMostTemporal)
    (hExtract : extractor.extract catalog callable = .ok schema) {value : Json} {result : Value}
    (hEval : schema.eval value = .ok result) :
    ∃ members record, value = .object members ∧ result = .record name record ∧
      Completed decls schema.call.fields members record := by
  obtain ⟨signature, hSignature, hConstruct, hPositional, hFields⟩ :=
    Extractor.extract_unclaimed (hTemporal.unclaimed h.backing) hExtract
  have hFormed := h.built.wellFormed hSignature
  have hParams := h.params hSignature
  have hNames : schema.call.fields.map (·.name) = signature.params.map (·.name) :=
    (hFields.imp fun _ _ hField => hField.1).map_eq.symm
  have hDeclared : signature.params.map (·.name) = decls.map (·.name) := by
    refine (hParams.imp fun decl param hGives => ?_).map_eq.symm
    obtain ⟨type, rfl⟩ := hGives
    rfl
  have hSplit : schema.call.fields.map (·.name) =
      schema.call.positionalOnly ++ signature.named := by
    rw [hNames, hPositional, hFormed.names_eq]
  have hDistinct : schema.call.DistinctNames := by
    rw [ObjectSchema.DistinctNames, hNames]
    exact hFormed.distinct
  obtain ⟨members, rfl⟩ := Schema.value_of_evalAt_object hEval
  obtain ⟨values, hValues, hRequired, hGapFree, hResult⟩ :=
    (Schema.evalAt_object_eq_ok_iff hDistinct [] members result).mp hEval
  have hGap := ((schema.call.gapFree_congr
    (Entries.mem_keys_ofPairs_zip hValues.length_eq)).mpr hGapFree).positional hSplit
  rw [hPositional] at hGap
  rw [hConstruct, h.construct, arguments_eq hSplit hDistinct, Constructor.recordWithDefaults,
    hPositional, fill_arguments hFormed hParams hGap] at hResult
  cases hResult
  refine ⟨members, _, rfl, rfl, completed_complete (hNames.trans hDeclared)
    (hDeclared ▸ hFormed.distinct) (fun decl hm hNone => ?_) hValues⟩
  obtain ⟨param, hParam, type, rfl⟩ := hParams.exists_right hm
  obtain ⟨field, hField, hName, hFieldRequired, _⟩ := hFields.exists_right hParam
  have hGiven := hRequired field hField (by rw [hFieldRequired, hNone]; rfl)
  rwa [← hName] at hGiven

namespace Manifest

/-- The file declares a record class or a function with these fields or parameters. -/
def Declares (file : ManifestFile) (name : String) (params : List ParamDecl) : Prop :=
  (∃ decl ∈ file.types, decl.name = name ∧ decl.fields = params) ∨
    ∃ decl ∈ file.functions, decl.name = name ∧ decl.params = params

/-- A call of a function or record class of a resolved manifest that succeeds ends in a
record of that name, with all declared parameters in order. -/
theorem eval_eq_completed_record {file : ManifestFile} {manifest : Manifest}
    (hResolve : resolve file = .ok manifest) {name : String} {callable : Callable}
    (hCallable : manifest.callable? name = some callable) {extractor : Extractor}
    (hTemporal : extractor.AtMostTemporal) {schema : CallableSchema}
    (hExtract : extractor.extract manifest.catalog callable = .ok schema) {value : Json}
    {result : Value} (hEval : schema.eval value = .ok result) :
    ∃ params members record, Declares file name params ∧ value = .object members ∧
      result = .record name record ∧ Completed params schema.call.fields members record := by
  rcases declared_of_callable? hResolve hCallable with
    ⟨decl, hm, rfl, known, hBuild⟩ | ⟨decl, hm, rfl, hBuild⟩
  · obtain ⟨members, record, hRecord⟩ :=
      (TypeDecl.hasParams hBuild).completed hTemporal hExtract hEval
    exact ⟨decl.fields, members, record, .inl ⟨decl, hm, rfl, rfl⟩, hRecord⟩
  · obtain ⟨members, record, hRecord⟩ :=
      (FunctionDecl.hasParams hBuild).completed hTemporal hExtract hEval
    exact ⟨decl.params, members, record, .inr ⟨decl, hm, rfl, rfl⟩, hRecord⟩

/-- A function with a parameter of each kind of passing. Two are supplied, and the other two take
their defaults, one of which is null. -/
theorem completed_with_supplied_and_omitted :
    let params : List ParamDecl :=
      [⟨"a", some "int", some (.int 0), .positionalOnly⟩, ⟨"b", none, some .null, .positionalOnly⟩,
        ⟨"c", some "int", none, .positionalOrKeyword⟩,
        ⟨"d", none, some (.array [.int 1]), .keywordOnly⟩]
    Completed params
      [⟨"a", .primitive .int, none, false⟩, ⟨"b", .undefined .any, none, false⟩,
        ⟨"c", .primitive .int, none, true⟩, ⟨"d", .undefined .any, none, false⟩]
      [("c", .int 3), ("a", .int 7)]
      [("a", .int 7), ("b", .absent), ("c", .int 3), ("d", .list [.int 1])] := by
  intro params
  let file : ManifestFile := ⟨[], [], [⟨"f", none, params, none⟩]⟩
  have hView : ((resolve file).toOption.bind fun manifest => (manifest.callable? "f").bind fun f =>
      (Extractor.standard.extract manifest.catalog f).toOption.bind fun schema =>
        (schema.eval (.object [("c", .int 3), ("a", .int 7)])).toOption.map fun result =>
          (schema.call.fields, result)) =
      some ([⟨"a", .primitive .int, none, false⟩, ⟨"b", .undefined .any, none, false⟩,
        ⟨"c", .primitive .int, none, true⟩, ⟨"d", .undefined .any, none, false⟩],
        .record "f" [("a", .int 7), ("b", .absent), ("c", .int 3), ("d", .list [.int 1])]) := by cbv
  obtain ⟨manifest, hResolve, hView⟩ := Option.bind_eq_some_iff.mp hView
  obtain ⟨callable, hCallable, hView⟩ := Option.bind_eq_some_iff.mp hView
  obtain ⟨schema, hExtract, hView⟩ := Option.bind_eq_some_iff.mp hView
  obtain ⟨result, hEval, hView⟩ := Option.map_eq_some_iff.mp hView
  obtain ⟨hFields, hResult⟩ := Prod.mk.inj hView
  rw [Except.toOption_eq_some_iff] at hResolve hExtract hEval
  obtain ⟨declared, members, record, hDeclares, hMembers, hRecord, hCompleted⟩ :=
    eval_eq_completed_record hResolve hCallable Extractor.atMostTemporal_standard hExtract hEval
  cases hMembers
  cases hResult.symm.trans hRecord
  rcases hDeclares with ⟨decl, hm, _⟩ | ⟨decl, hm, _, hParams⟩
  · cases hm
  · cases List.mem_singleton.mp hm
    rw [hFields, ← hParams] at hCompleted
    exact hCompleted

end Manifest

end ToolSchema
