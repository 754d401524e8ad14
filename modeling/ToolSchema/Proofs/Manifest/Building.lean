import ToolSchema.Manifest.Resolution
import ToolSchema.Proofs.Callable.Related

/-! Declarations built from their written form. Only the types depend on what the
names mean: where the texts are read as related types, related callables are
built. -/
namespace ToolSchema

open Except

/-! Plans -/

/-- The written form of a function or record class. -/
structure Plan where
  start : Declaration
  doc : Option String
  params : List ParamDecl
  returns : Option String

def TypeDecl.plan (decl : TypeDecl) : Plan := ⟨.classDef decl.name none, decl.doc, decl.fields, none⟩

def FunctionDecl.plan (decl : FunctionDecl) : Plan :=
  ⟨.function decl.name, decl.doc, decl.params, decl.returns⟩

namespace Plan

open Manifest (lookup parseIn parseOption paramOf)

def build (names : Entries TypeExpr) (plan : Plan) : Except Error Callable :=
  Manifest.build names plan.start plan.doc plan.params plan.returns

def texts (plan : Plan) : List String := plan.params.filterMap (·.type) ++ plan.returns.toList

/-- Reading a type among the names of a manifest is reading it, with its failures passed on. -/
theorem parseIn_eq_ok_iff {names : Entries TypeExpr} {text : String} {t : TypeExpr} :
    parseIn names text = .ok t ↔ TypeExpr.parse (lookup names) text = .ok t := mapError_eq_ok_iff

theorem parseIn_eq_type_error_iff {names : Entries TypeExpr} {text : String} {error : TypeError} :
    parseIn names text = .error (.type error) ↔
      TypeExpr.parse (lookup names) text = .error error := by
  rw [parseIn, mapError_eq_error_iff]
  simp

/-- A text that may be missing is read, or there is no type either. -/
theorem parseOption_eq_ok_iff {names : Entries TypeExpr} {text : Option String}
    {type : Option TypeExpr} :
    parseOption names text = .ok type ↔
      Option.Rel (fun text t => TypeExpr.parse (lookup names) text = .ok t) text type := by
  cases text with
  | none => cases type <;> simp [parseOption]
  | some text =>
      rw [parseOption]
      cases hParse : parseIn names text with
      | error e =>
          have hFails (t : TypeExpr) : TypeExpr.parse (lookup names) text ≠ .ok t := by
            rw [← parseIn_eq_ok_iff.ne, hParse]
            exact nofun
          cases type <;> simp [Except.map, hFails]
      | ok t =>
          rw [parseIn_eq_ok_iff] at hParse
          cases type <;> simp [Except.map, hParse]

theorem parseOption_eq_error {names : Entries TypeExpr} {text : Option String} {error : TypeError}
    (h : parseOption names text = .error (.type error)) :
    ∃ written ∈ text, TypeExpr.parse (lookup names) written = .error error := by
  cases text with
  | none => cases h
  | some text => exact ⟨text, rfl, parseIn_eq_type_error_iff.mp (map_eq_error_iff.mp h)⟩

/-- A parameter is its declaration with a type that was read. -/
theorem paramOf_eq_ok_iff {names : Entries TypeExpr} {decl : ParamDecl} {param : Parameter} :
    paramOf names decl = .ok param ↔ ∃ type, parseOption names decl.type = .ok type ∧
      param = ⟨decl.name, decl.passing, type, decl.default.isSome⟩ := by
  rw [paramOf, bind_eq_ok_iff]
  exact exists_congr fun type => and_congr_right fun _ => pure_eq_ok_iff.trans eq_comm

def declaration (plan : Plan) (params : List Parameter) (returns : Option TypeExpr) : Declaration :=
  let declaration := params.foldl Declaration.withParam { plan.start with doc := plan.doc }
  { (match returns with
      | some type => declaration.withReturns type
      | none => declaration) with
    construct := some (.recordWithDefaults plan.start.name (plan.params.map Manifest.fieldOf)) }

/-- What building a callable comes to: all types are read, and the checks of the declaration are
passed. -/
theorem build_eq_ok_iff {names : Entries TypeExpr} {plan : Plan} {callable : Callable} :
    plan.build names = .ok callable ↔ ∃ params returns,
      List.Forall₂ (fun decl param => paramOf names decl = .ok param) plan.params params ∧
        parseOption names plan.returns = .ok returns ∧
        (plan.declaration params returns).build = .ok callable := by
  rw [build, Manifest.build, bind_eq_ok_iff]
  apply exists_congr
  intro params
  rw [mapM_eq_ok_iff]
  constructor
  · intro h
    obtain ⟨hParams, h⟩ := h
    obtain ⟨returns, hReturns, h⟩ := bind_eq_ok_iff.mp h
    refine ⟨returns, hParams, hReturns, ?_⟩
    cases returns <;> exact mapError_eq_ok_iff.mp h
  · intro h
    obtain ⟨returns, hParams, hReturns, h⟩ := h
    refine ⟨hParams, bind_eq_ok_iff.mpr ⟨returns, hReturns, ?_⟩⟩
    cases returns <;> exact mapError_eq_ok_iff.mpr h

theorem name_foldl_withParam (params : List Parameter) (declaration : Declaration) :
    (params.foldl Declaration.withParam declaration).name = declaration.name := by
  induction params generalizing declaration with
  | nil => rfl
  | cons param params ih => exact ih (declaration.withParam param)

theorem name_of_build {names : Entries TypeExpr} {plan : Plan} {callable : Callable}
    (h : plan.build names = .ok callable) : callable.name = plan.start.name := by
  obtain ⟨params, returns, _, _, hBuild⟩ := build_eq_ok_iff.mp h
  obtain ⟨rfl, _⟩ := Declaration.build_ok hBuild
  cases returns <;> exact name_foldl_withParam params { plan.start with doc := plan.doc }

/-- A plan fails for a type because one of its texts cannot be read. -/
theorem build_eq_type_error {names : Entries TypeExpr} {plan : Plan} {error : TypeError}
    (h : plan.build names = .error (.type error)) :
    ∃ text ∈ plan.texts, TypeExpr.parse (lookup names) text = .error error := by
  rw [build, Manifest.build] at h
  rcases bind_eq_error_iff.mp h with h | ⟨params, _, h⟩
  · obtain ⟨decl, hm, h⟩ := exists_of_mapM_eq_error h
    rw [paramOf] at h
    rcases bind_eq_error_iff.mp h with h | ⟨_, _, h⟩
    · obtain ⟨text, hText, h⟩ := parseOption_eq_error h
      exact ⟨text, List.mem_append_left _ (List.mem_filterMap.mpr ⟨decl, hm, hText⟩), h⟩
    · cases h
  · rcases bind_eq_error_iff.mp h with h | ⟨returns, _, h⟩
    · obtain ⟨text, hText, h⟩ := parseOption_eq_error h
      exact ⟨text, List.mem_append_right _ (Option.mem_toList.mpr hText), h⟩
    · cases returns <;>
      · obtain ⟨_, _, h⟩ := mapError_eq_error_iff.mp h
        cases h

section

variable {r : TypeExpr → TypeExpr → Prop} {names names' : Entries TypeExpr}

/-- Where texts are read as related types, so are the texts of parameters and results. From here up
to the callable, part by part. -/
theorem parseOption_related {text : Option String} {type : Option TypeExpr}
    (hText : ∀ written ∈ text, ∀ t, TypeExpr.parse (lookup names) written = .ok t →
      ∃ t', r t t' ∧ TypeExpr.parse (lookup names') written = .ok t')
    (h : parseOption names text = .ok type) :
    ∃ type', parseOption names' text = .ok type' ∧ Option.Rel r type type' := by
  cases parseOption_eq_ok_iff.mp h with
  | none => exact ⟨none, rfl, .none⟩
  | some hParse =>
      obtain ⟨t', hRelated, hParse'⟩ := hText _ rfl _ hParse
      exact ⟨some t', parseOption_eq_ok_iff.mpr (.some hParse'), .some hRelated⟩

theorem paramOf_related {decl : ParamDecl} {param : Parameter}
    (hText : ∀ written ∈ decl.type, ∀ t, TypeExpr.parse (lookup names) written = .ok t →
      ∃ t', r t t' ∧ TypeExpr.parse (lookup names') written = .ok t')
    (h : paramOf names decl = .ok param) :
    ∃ param', paramOf names' decl = .ok param' ∧ param.Related r param' := by
  obtain ⟨type, hType, rfl⟩ := paramOf_eq_ok_iff.mp h
  obtain ⟨type', hType', hRelated⟩ := parseOption_related hText hType
  exact ⟨_, paramOf_eq_ok_iff.mpr ⟨type', hType', rfl⟩, rfl, rfl, rfl, hRelated⟩

theorem paramsOf_related {decls : List ParamDecl} {params : List Parameter}
    (hTexts : ∀ decl ∈ decls, ∀ written ∈ decl.type, ∀ t,
      TypeExpr.parse (lookup names) written = .ok t →
        ∃ t', r t t' ∧ TypeExpr.parse (lookup names') written = .ok t')
    (h : List.Forall₂ (fun decl param => paramOf names decl = .ok param) decls params) :
    ∃ params', List.Forall₂ (fun decl param => paramOf names' decl = .ok param) decls params' ∧
      List.Forall₂ (Parameter.Related r) params params' := by
  induction h with
  | nil => exact ⟨[], .nil, .nil⟩
  | cons hFirst _ ih =>
      rw [List.forall_mem_cons] at hTexts
      obtain ⟨param', hFirst', hRelated⟩ := paramOf_related hTexts.1 hFirst
      obtain ⟨params', hMore', hRelated'⟩ := ih hTexts.2
      exact ⟨param' :: params', .cons hFirst' hMore', .cons hRelated hRelated'⟩

/-- Declarations that are put together from related parts are related. -/
theorem declaration_related {plan : Plan} (hStart : plan.start.Related r plan.start)
    {params params' : List Parameter} (hParams : List.Forall₂ (Parameter.Related r) params params')
    {returns returns' : Option TypeExpr} (hReturns : Option.Rel r returns returns') :
    (plan.declaration params returns).Related r (plan.declaration params' returns') := by
  have hDoc : ({ plan.start with doc := plan.doc } : Declaration).Related r
      { plan.start with doc := plan.doc } := { hStart with doc := rfl }
  have hParams := hDoc.foldl_withParam hParams
  cases hReturns with
  | none => exact { hParams with construct := rfl }
  | some hType => exact { hParams.withReturns hType with construct := rfl }

/-- Where the texts are read as related types, related callables are built. -/
theorem build_related {plan : Plan} (hStart : plan.start.Related r plan.start)
    (hTexts : ∀ text ∈ plan.texts, ∀ t, TypeExpr.parse (lookup names) text = .ok t →
      ∃ t', r t t' ∧ TypeExpr.parse (lookup names') text = .ok t')
    {callable : Callable} (h : plan.build names = .ok callable) :
    ∃ callable', plan.build names' = .ok callable' ∧ callable.Related r callable' := by
  obtain ⟨params, returns, hParams, hReturns, hBuild⟩ := build_eq_ok_iff.mp h
  obtain ⟨params', hParams', hRelated⟩ := paramsOf_related (fun decl hm text hText =>
    hTexts text (List.mem_append_left _ (List.mem_filterMap.mpr ⟨decl, hm, hText⟩))) hParams
  obtain ⟨returns', hReturns', hRelated'⟩ := parseOption_related (fun text hText =>
    hTexts text (List.mem_append_right _ (Option.mem_toList.mpr hText))) hReturns
  obtain ⟨callable', hBuild', hCallable⟩ :=
    (declaration_related hStart hRelated hRelated').build rfl hBuild
  exact ⟨callable', build_eq_ok_iff.mpr ⟨params', returns', hParams', hReturns', hBuild'⟩,
    hCallable⟩

end

end Plan

/-! What is built -/

/-- Parameters are added in order to the signature that there is. -/
theorem Declaration.foldl_withParam_cons (param : Parameter) (params : List Parameter)
    (declaration : Declaration) :
    (param :: params).foldl Declaration.withParam declaration =
      { declaration with
        signature := some ⟨(declaration.signature.getD .empty).params ++ param :: params,
          (declaration.signature.getD .empty).returns⟩ } := by
  induction params generalizing param declaration with
  | nil => rfl
  | cons next params ih =>
      rw [List.foldl_cons, ih]
      simp [Declaration.withParam]

/-- A record class has a signature only if it has fields. -/
theorem TypeDecl.build_ok {decl : TypeDecl} {names : Entries TypeExpr} {callable : Callable}
    (h : decl.plan.build names = .ok callable) : ∃ params,
      List.Forall₂ (fun field param => Manifest.paramOf names field = .ok param) decl.fields
          params ∧
        callable = ⟨decl.name, .classDef, decl.doc,
          if decl.fields = [] then none else some ⟨params, none⟩, none,
          .recordWithDefaults decl.name (decl.fields.map Manifest.fieldOf), none⟩ := by
  obtain ⟨params, returns, hParams, hReturns, hBuild⟩ := Plan.build_eq_ok_iff.mp h
  cases hReturns
  obtain ⟨rfl, _⟩ := Declaration.build_ok hBuild
  refine ⟨params, hParams, ?_⟩
  obtain ⟨name, doc, fields⟩ := decl
  cases hParams with
  | nil => rfl
  | cons _ _ =>
      simp only [Plan.declaration, TypeDecl.plan, Declaration.foldl_withParam_cons]
      rfl

/-- A function has a signature, also without parameters. -/
theorem FunctionDecl.build_ok {decl : FunctionDecl} {names : Entries TypeExpr} {callable : Callable}
    (h : decl.plan.build names = .ok callable) : ∃ params returns,
      List.Forall₂ (fun param built => Manifest.paramOf names param = .ok built) decl.params
          params ∧
        Manifest.parseOption names decl.returns = .ok returns ∧
        callable = ⟨decl.name, .function, decl.doc, some ⟨params, returns⟩, none,
          .recordWithDefaults decl.name (decl.params.map Manifest.fieldOf), none⟩ := by
  obtain ⟨params, returns, hParams, hReturns, hBuild⟩ := Plan.build_eq_ok_iff.mp h
  obtain ⟨rfl, _⟩ := Declaration.build_ok hBuild
  refine ⟨params, returns, hParams, hReturns, ?_⟩
  obtain ⟨name, doc, decls, result⟩ := decl
  cases hParams with
  | nil => cases returns <;> rfl
  | cons _ _ =>
      simp only [Plan.declaration, FunctionDecl.plan, Declaration.foldl_withParam_cons]
      cases returns <;> rfl

theorem TypeDecl.start_related (r : TypeExpr → TypeExpr → Prop) (decl : TypeDecl) :
    decl.plan.start.Related r decl.plan.start :=
  ⟨rfl, rfl, rfl, .none, .none, rfl, rfl⟩

theorem FunctionDecl.start_related (r : TypeExpr → TypeExpr → Prop) (decl : FunctionDecl) :
    decl.plan.start.Related r decl.plan.start :=
  ⟨rfl, rfl, rfl, .some Signature.related_empty, .none, rfl, rfl⟩

end ToolSchema
