import ToolSchema.Command.Execution
import ToolSchema.Proofs.Manifest.Names

/-! What the command for normal forms prints is read by it again, as the same normal
form. -/
namespace ToolSchema.Command

open Except

/-- The manifest whose names the type of a request may use. Without a file it is the
one that declares nothing. -/
def manifestOf (environment : Environment) (request : NormalizeRequest) :
    Except Failure Manifest :=
  match request.manifest with
  | some path => environment.readManifest path
  | none => .ok .empty

def typeOf (environment : Environment) (request : NormalizeRequest) : Except Failure TypeExpr := do
  let manifest ← manifestOf environment request
  (manifest.parse request.type).mapError .core

/-- The normal form is that of the type, which both commands read in one way. -/
theorem findNormalForm_eq (environment : Environment) (request : NormalizeRequest) :
    findNormalForm environment request = (do
      let type ← typeOf environment request
      return .of request.concretize type) := by
  rw [findNormalForm, typeOf, manifestOf]
  cases request.manifest with
  | some path => exact (bind_assoc _ _ _).symm
  | none => rfl

theorem resolve_nothing : Manifest.resolve ⟨[], [], []⟩ = .ok .empty := by
  cbv

section

variable {environment : Environment} {request : NormalizeRequest}

/-- The manifest of a request is always one that was resolved. Without a file it is the one that
declares nothing. -/
theorem resolve_of_manifestOf {manifest : Manifest}
    (h : manifestOf environment request = .ok manifest) :
    ∃ file, Manifest.resolve file = .ok manifest := by
  rw [manifestOf] at h
  split at h
  · rw [Environment.readManifest] at h
    obtain ⟨file, _, h⟩ := bind_eq_ok_iff.mp h
    exact ⟨file, mapError_eq_ok_iff.mp h⟩
  · cases h
    exact ⟨_, resolve_nothing⟩

/-- The names stay the same, so a legible normal form is read as itself. -/
theorem typeOf_normalize {type : TypeExpr} (hType : typeOf environment request = .ok type)
    (hLegible : (type.normalize request.concretize).Legible) :
    typeOf environment { request with type := (type.normalize request.concretize).text } =
      .ok (type.normalize request.concretize) := by
  rw [typeOf] at hType
  obtain ⟨manifest, hManifest, hParse⟩ := bind_eq_ok_iff.mp hType
  obtain ⟨file, hResolve⟩ := resolve_of_manifestOf hManifest
  rw [mapError_eq_ok_iff] at hParse
  have hAgain := Manifest.parse_normalize hResolve (Plan.parseIn_eq_ok_iff.mp hParse) hLegible
  rw [typeOf]
  refine bind_eq_ok_iff.mpr ⟨manifest, hManifest, ?_⟩
  rw [mapError_eq_ok_iff]
  exact Plan.parseIn_eq_ok_iff.mpr hAgain

/-- What the command prints when it has found the normal form. -/
theorem finish_normalize {form : NormalForm} (h : findNormalForm environment request = .ok form)
    (style : Style) :
    (normalize environment style request).finish = (.ok (), form.render style request.type) := by
  rw [normalize, h]
  exact congrArg (Prod.mk _) String.empty_append

/-- Where the normal form of a type is legible, the command accepts what it prints
for the type, among the same names, and finds the same normal form again. -/
theorem normalize_prints_fixed_point {type : TypeExpr}
    (hType : typeOf environment request = .ok type)
    (hLegible : (type.normalize request.concretize).Legible) : ∃ form,
      findNormalForm environment request = .ok form ∧
      findNormalForm environment { request with type := form.text } = .ok form ∧
      ∀ style,
        (normalize environment style request).finish = (.ok (), form.render style request.type) ∧
        (normalize environment style { request with type := form.text }).finish =
          (.ok (), form.render style form.text) := by
  have hForm : findNormalForm environment request = .ok (.of request.concretize type) := by
    rw [findNormalForm_eq, hType]
    rfl
  have hAgain : findNormalForm environment
      { request with type := (NormalForm.of request.concretize type).text } =
        .ok (.of request.concretize type) := by
    have hNormal := (TypeExpr.canonical_normalize request.concretize type).normalize_eq
    rw [findNormalForm_eq, NormalForm.of, typeOf_normalize hType hLegible]
    change Except.ok (NormalForm.of request.concretize (type.normalize request.concretize)) = _
    rw [NormalForm.of, hNormal]
  exact ⟨_, hForm, hAgain, fun style =>
    ⟨finish_normalize hForm style, finish_normalize hAgain style⟩⟩

end

/-- No files, no variables and no terminal. -/
def bareEnvironment : Environment := ⟨fun _ => .missing, fun _ => none, false⟩

/-- A union with metadata, a set and a literal with a quote, next to a built-in class. -/
theorem normalize_prints_fixed_point_of_dates : ∃ type,
    typeOf bareEnvironment
      ⟨"date | None | Annotated[date, 'day'] | Literal['it\\'s', True] | Set[None]", true, none⟩ =
        .ok type ∧
      (type.normalize true).Legible ∧ ∃ form,
        form.text = "date | None | set[None] | Literal['it\\'s', True]" ∧
        findNormalForm bareEnvironment ⟨form.text, true, none⟩ = .ok form := by
  have hType : typeOf bareEnvironment
      ⟨"date | None | Annotated[date, 'day'] | Literal['it\\'s', True] | Set[None]", true, none⟩ =
        .ok (.union [.classRef ⟨"date", 0⟩, .null, .tagged (.classRef ⟨"date", 0⟩) ["day"],
          .literal [.str "it's", .bool true], .generic .set [.null]]) := by
    cbv
  have hNormal : (TypeExpr.union [.classRef ⟨"date", 0⟩, .null,
      .tagged (.classRef ⟨"date", 0⟩) ["day"], .literal [.str "it's", .bool true],
      .generic .set [.null]]).normalize true =
        .union [.classRef ⟨"date", 0⟩, .null, .generic .set [.null],
          .literal [.str "it's", .bool true]] := by
    cbv
  have hLegible : (TypeExpr.union [.classRef ⟨"date", 0⟩, .null, .generic .set [.null],
      .literal [.str "it's", .bool true]]).Legible := by
    refine .union ?_
    simp only [List.forall_mem_cons]
    refine ⟨.classRef _, .null, .generic (by decide) ?_, .literal ?_, List.forall_mem_nil _⟩
    · exact List.forall_mem_singleton.mpr .null
    · simp [Constant.IsLegible]
  rw [← hNormal] at hLegible
  obtain ⟨form, hForm, hAgain, _⟩ := normalize_prints_fixed_point hType hLegible
  refine ⟨_, hType, hLegible, form, ?_, hAgain⟩
  rw [findNormalForm_eq, hType] at hForm
  rw [← Except.ok.inj hForm, NormalForm.of, hNormal]
  rfl

/-- A backslash in a string is printed as one and taken for a mark when it is read. -/
theorem backslash_lost : ¬ ∀ environment request form,
    findNormalForm environment request = .ok form →
      findNormalForm environment { request with type := form.text } = .ok form := by
  intro h
  have hFirst : findNormalForm bareEnvironment ⟨"Literal['a\\\\b']", false, none⟩ =
      .ok ⟨"Literal['a\\b']", none⟩ := by
    cbv
  have hSecond : findNormalForm bareEnvironment ⟨"Literal['a\\b']", false, none⟩ =
      .ok ⟨"Literal['ab']", none⟩ := by
    cbv
  have hForm := Except.ok.inj (hSecond.symm.trans (h _ _ _ hFirst))
  exact absurd hForm (by decide)

/-- The abstract set is printed by a name that is read as the concrete one. -/
example : findNormalForm bareEnvironment ⟨"collections.abc.Set[int]", false, none⟩ =
      .ok ⟨"Set[int]", none⟩ ∧
    findNormalForm bareEnvironment ⟨"Set[int]", false, none⟩ = .ok ⟨"set[int]", none⟩ := by
  cbv

end ToolSchema.Command
