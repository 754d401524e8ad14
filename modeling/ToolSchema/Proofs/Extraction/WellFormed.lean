import ToolSchema.Proofs.Callable.Declaration
import ToolSchema.Proofs.Extraction.Conversion
import ToolSchema.Proofs.TypeExpr.Canonical

/-! What extracted schemas look like at every depth. The types are canonical when they
are converted, and the declarations of classes were checked when they were built. -/
namespace ToolSchema

open Except (bind_eq_ok_iff)

namespace Schema

/-- The alternatives of a union from outside. A literal that comes last is the only
one. -/
structure WellFormedOptions (options : List (Option Schema)) : Prop where
  several : options.length ≠ 1
  flat : ∀ inner, some (.union inner) ∉ options
  absent : options.Pairwise fun earlier later => earlier = none → later ≠ none
  literal : ∀ before values after, options = before ++ some (.literal values) :: after → after = []

/-- Schemas whose parts fit together at every depth. -/
inductive WellFormed : Schema → Prop
  | undefined {type : TypeExpr} (hType : type = .any ∨ type = .null) : WellFormed (.undefined type)
  | primitive (kind : Scalar) : WellFormed (.primitive kind)
  | sequence {origin : Origin} {item : Schema} (hOrigin : origin = .list ∨ origin = .tuple)
      (hItem : WellFormed item) : WellFormed (.sequence origin item)
  | tuple {items : List Schema} (hItems : ∀ item ∈ items, WellFormed item) :
      WellFormed (.tuple .tuple items)
  | mapping {key value : Schema} (hKey : WellFormed key) (hValue : WellFormed value) :
      WellFormed (.mapping .dict key value)
  | union {options : List (Option Schema)} (hShape : WellFormedOptions options)
      (hOptions : ∀ option, some option ∈ options → WellFormed option) : WellFormed (.union options)
  | literal {options : List Constant}
      (hDistinct : options.Pairwise fun earlier later => (earlier == later) = false) :
      WellFormed (.literal options)
  | object {object : ObjectSchema Schema} (hDistinct : object.DistinctNames)
      (hPositional : object.positionalOnly <+: object.fields.map (·.name))
      (hFields : ∀ field ∈ object.fields, WellFormed field.schema) : WellFormed (.object object)

end Schema

namespace Extractor

open Schema (WellFormed WellFormedOptions)

/-! Types -/

section

variable {classes : ClassSchemas}

/-- Only a union is converted to a union. -/
theorem union_of_convert {type : TypeExpr} {options : List (Option Schema)}
    (h : convert classes type = .ok (.union options)) : ∃ arms, type = .union arms := by
  cases type using TypeExpr.induction with
  | union arms _ => exact ⟨arms, rfl⟩
  | generic origin args _ =>
      rcases convert_generic_ok h with ⟨_, _, _, _, _, he⟩ | ⟨_, _, _, _, _, he⟩ |
        ⟨_, _, _, _, he⟩ | ⟨_, _, _, _, _, _, _, _, he⟩ <;> cases he
  | classRef ref =>
      obtain ⟨_, _, hPure⟩ := bind_eq_ok_iff.mp h
      cases hPure
  | _ => cases h

/-- Only a literal is converted to a literal, and its constants are kept. -/
theorem literal_of_convert {type : TypeExpr} {values : List Constant}
    (h : convert classes type = .ok (.literal values)) : type = .literal values := by
  cases type using TypeExpr.induction with
  | literal values =>
      cases h
      rfl
  | union arms _ =>
      obtain ⟨_, _, hPure⟩ := bind_eq_ok_iff.mp h
      cases hPure
  | generic origin args _ =>
      rcases convert_generic_ok h with ⟨_, _, _, _, _, he⟩ | ⟨_, _, _, _, _, he⟩ |
        ⟨_, _, _, _, he⟩ | ⟨_, _, _, _, _, _, _, _, he⟩ <;> cases he
  | classRef ref =>
      obtain ⟨_, _, hPure⟩ := bind_eq_ok_iff.mp h
      cases hPure
  | _ => cases h

/-- What is true of the arms of a canonical union remains true of the alternatives. -/
theorem wellFormedOptions_of_alternatives {arms : List TypeExpr} {options : List (Option Schema)}
    (hArms : TypeExpr.CanonicalArms arms) (h : List.Forall₂ (Alternative classes) arms options) :
    WellFormedOptions options where
  several := h.length_eq ▸ hArms.several
  flat inner hm := by
    obtain ⟨arm, hArm, hAlternative⟩ := h.exists_left hm
    cases hAlternative with
    | schema _ hConvert =>
      obtain ⟨below, rfl⟩ := union_of_convert hConvert
      exact hArms.flat _ hArm below rfl
  absent := by
    refine h.pairwise hArms.distinct fun arm arm' option option' hArm hArm' hDistinct hNone
      hNone' => ?_
    subst hNone hNone'
    cases hArm
    cases hArm'
    cases hDistinct
  literal before values after he := by
    obtain ⟨front, arm, back, hSplit, hAlternative, hBack⟩ := (he ▸ h).split_right
    cases hAlternative with
    | schema _ hConvert =>
      cases literal_of_convert hConvert
      have hLast := (hArms.literal front values back hSplit).2
      rw [hLast, List.forall₂_nil_left_iff] at hBack
      exact hBack

/-- A canonical type has a well-formed schema if its classes have. -/
theorem wellFormed_of_convert
    (hClasses : ∀ ref object, classes ref = .ok object → WellFormed (.object object))
    {type : TypeExpr} (hType : type.Canonical true) {schema : Schema}
    (h : convert classes type = .ok schema) : schema.WellFormed := by
  induction hType generalizing schema with
  | any =>
      cases h
      exact .undefined (.inl rfl)
  | null =>
      cases h
      exact .undefined (.inr rfl)
  | int | float | str | bool =>
      cases h
      exact .primitive _
  | literal hDistinct =>
      cases h
      exact .literal hDistinct
  | union hShape _ ih =>
      obtain ⟨options, hOptions, hPure⟩ := bind_eq_ok_iff.mp h
      cases hPure
      have hOptions := convertArms_eq_ok_iff.mp hOptions
      refine .union (wellFormedOptions_of_alternatives hShape hOptions) fun option hm => ?_
      obtain ⟨arm, hArm, hAlternative⟩ := hOptions.exists_left hm
      cases hAlternative with
      | schema _ hConvert => exact ih arm hArm hConvert
  | generic _ _ ih =>
      rcases convert_generic_ok h with ⟨-, item, inner, rfl, hItem, rfl⟩ |
        ⟨-, item, inner, rfl, hItem, rfl⟩ | ⟨-, -, inners, hInners, rfl⟩ |
        ⟨-, key, value, keys, values, rfl, hKey, hValue, rfl⟩
      · exact .sequence (.inl rfl) (ih item List.mem_cons_self hItem)
      · exact .sequence (.inr rfl) (ih item List.mem_cons_self hItem)
      · refine .tuple fun inner hm => ?_
        obtain ⟨arg, hArg, hConvert⟩ := (convertAll_eq_ok_iff.mp hInners).exists_left hm
        exact ih arg hArg hConvert
      · exact .mapping (ih key List.mem_cons_self hKey)
          (ih value (List.mem_cons_of_mem _ List.mem_cons_self) hValue)
  | ellipsis => cases h
  | classRef ref =>
      obtain ⟨object, hObject, hPure⟩ := bind_eq_ok_iff.mp h
      cases hPure
      exact hClasses ref object hObject

/-- A type that is left out has a schema for unknown types, which is well formed. -/
theorem wellFormed_of_schemaOfOption
    (hClasses : ∀ ref object, classes ref = .ok object → WellFormed (.object object))
    {type : Option TypeExpr} {schema : Schema} (h : schemaOfOption classes type = .ok schema) :
    schema.WellFormed := by
  cases type with
  | none =>
      cases h
      exact .undefined (.inl rfl)
  | some type => exact wellFormed_of_convert hClasses (TypeExpr.canonical_normalize true type) h

end

/-! Callables -/

/-- Every strategy is the one for dates, times and durations, if there is a strategy at
all. -/
def AtMostTemporal (extractor : Extractor) : Prop := ∀ strategy ∈ extractor, strategy = .temporal

theorem atMostTemporal_standard : standard.AtMostTemporal := fun _ => List.mem_singleton.mp

/-- A claim is either none or the schema of a kind of dates, times and durations. -/
theorem AtMostTemporal.claim_cases {extractor : Extractor} (h : extractor.AtMostTemporal)
    (callable : Callable) : extractor.claim callable = .ok none ∨
      ∃ kind, callable.backing = some (.temporal kind) ∧
        extractor.claim callable = .ok (some (Strategy.temporalSchema callable.name kind)) := by
  induction extractor with
  | nil => exact .inl rfl
  | cons strategy more ih =>
      obtain ⟨rfl, hMore⟩ := List.forall_mem_cons.mp h
      by_cases hTemporal : ∃ kind, callable.backing = some (.temporal kind)
      · obtain ⟨kind, hBacking⟩ := hTemporal
        refine .inr ⟨kind, hBacking, ?_⟩
        simp only [claim, Strategy.temporal, hBacking]
        rfl
      · have hNext : claim (.temporal :: more) callable = claim more callable := by
          cases hBacking : callable.backing with
          | none =>
              simp only [claim, Strategy.temporal, hBacking]
              rfl
          | some backing =>
              cases backing with
              | temporal kind => exact absurd ⟨kind, hBacking⟩ hTemporal
              | other =>
                  simp only [claim, Strategy.temporal, hBacking]
                  rfl
        rw [hNext]
        exact ih hMore

/-- A callable that nothing backs is never claimed. -/
theorem AtMostTemporal.unclaimed {extractor : Extractor} (h : extractor.AtMostTemporal)
    {callable : Callable} (hBacking : callable.backing = none) :
    extractor.claim callable = .ok none := by
  rcases h.claim_cases callable with hUnclaimed | ⟨kind, hTemporal, _⟩
  · exact hUnclaimed
  · rw [hBacking] at hTemporal
    cases hTemporal

/-- The fields of dates, times and durations are integers with different names. -/
theorem wellFormed_temporalSchema (name : String) (kind : TemporalKind) :
    WellFormed (.object (Strategy.temporalSchema name kind).call) := by
  have hInts : ∀ field ∈ Strategy.temporalFields kind, field.schema = .primitive .int := by
    cases kind <;> simp [Strategy.temporalFields, Strategy.intFields]
  have hDistinct : ((Strategy.temporalFields kind).map (·.name)).Nodup := by
    cases kind <;> decide
  exact .object hDistinct List.nil_prefix fun field hm => hInts field hm ▸ .primitive _

/-- A built callable has a well-formed schema if the classes that it may name have. -/
theorem wellFormed_of_schemaOfCallable {extractor : Extractor} {classes : ClassSchemas}
    {callable : Callable} {schema : CallableSchema} (hTemporal : extractor.AtMostTemporal)
    (hClasses : ∀ ref object, classes ref = .ok object → WellFormed (.object object))
    (hBuilt : callable.Built) (h : extractor.schemaOfCallable classes callable = .ok schema) :
    WellFormed (.object schema.call) ∧ schema.returns.WellFormed := by
  rcases hTemporal.claim_cases callable with hUnclaimed | ⟨kind, _, hClaimed⟩
  · obtain ⟨signature, hints, fields, returns, hSignature, -, hFields, hReturns, rfl⟩ :=
      (schemaOfCallable_eq_ok_iff hUnclaimed).mp h
    have hFormed := hBuilt.wellFormed hSignature
    have hFields := fieldsOf_ok hFields
    have hNames : fields.map (·.name) = signature.params.map (·.name) :=
      (hFields.imp fun _ _ hField => hField.1).map_eq.symm
    refine ⟨.object ?_ ?_ fun field hm => ?_, wellFormed_of_schemaOfOption hClasses hReturns⟩
    · rw [ObjectSchema.DistinctNames, hNames]
      exact hFormed.distinct
    · rw [hNames, hFormed.names_eq]
      exact List.prefix_append _ _
    · obtain ⟨param, _, _, _, hSchema⟩ := hFields.exists_left hm
      exact wellFormed_of_schemaOfOption hClasses hSchema
  · rw [schemaOfCallable, hClaimed] at h
    cases h
    exact ⟨wellFormed_temporalSchema _ kind, .undefined (.inr rfl)⟩

/-- Each declaration sees well-formed schemas of the older ones. -/
theorem wellFormed_of_classSchema {extractor : Extractor} (hTemporal : extractor.AtMostTemporal)
    {catalog : Catalog} (hCatalog : ∀ callable ∈ catalog, callable.Built) (ref : ClassRef)
    (object : ObjectSchema Schema) (h : extractor.classSchema catalog ref = .ok object) :
    WellFormed (.object object) := by
  induction catalog generalizing ref object with
  | nil => cases h
  | cons callable older ih =>
      obtain ⟨hBuilt, hOlder⟩ := List.forall_mem_cons.mp hCatalog
      have hClasses := ih hOlder
      rw [classSchema] at h
      split at h
      · split at h
        · next schema hSchema =>
          cases h
          exact (wellFormed_of_schemaOfCallable hTemporal hClasses hBuilt hSchema).1
        · cases h
      · exact hClasses ref object h

/-- Extraction from built declarations, without strategies or with the one for dates,
makes well-formed schemas. Unless the strategy claims the callable, there is a field
for each parameter, and it is required if the parameter has no default. -/
theorem extract_wellFormed {extractor : Extractor} {catalog : Catalog} {callable : Callable}
    {schema : CallableSchema} (hTemporal : extractor.AtMostTemporal)
    (hCatalog : ∀ other ∈ catalog, other.Built) (hBuilt : callable.Built)
    (h : extractor.extract catalog callable = .ok schema) :
    WellFormed (.object schema.call) ∧ schema.returns.WellFormed ∧
      (extractor.claim callable = .ok none → ∃ signature,
        callable.callSignature? = some signature ∧
          List.Forall₂ (fun param field => field.name = param.name ∧
            field.required = !param.hasDefault) signature.params schema.call.fields) := by
  have hSchema := Except.mapError_eq_ok_iff.mp h
  obtain ⟨hCall, hReturns⟩ := wellFormed_of_schemaOfCallable hTemporal
    (wellFormed_of_classSchema hTemporal hCatalog) hBuilt hSchema
  refine ⟨hCall, hReturns, fun hUnclaimed => ?_⟩
  obtain ⟨signature, hSignature, -, -, hFields⟩ := extract_unclaimed hUnclaimed h
  exact ⟨signature, hSignature, hFields.imp fun _ _ hField => ⟨hField.1.symm, hField.2.1⟩⟩

/-- A union with a class, an absent value and a literal, beside a list of dates. -/
theorem visit_wellFormed :
    WellFormed (.object ⟨"visit", .record "visit" [], none, [],
      [⟨"stop", .union [some (.object ⟨"Stop", .record "Stop" ["place"], none, ["place"],
        [⟨"place", .primitive .str, none, true⟩]⟩), none, some (.literal [.str "home"])], none,
        true⟩,
      ⟨"days", .sequence .list (.object (Strategy.temporalSchema "date" .date).call), none,
        false⟩]⟩) := by
  have hStop : Callable.Built _ :=
    ⟨(Declaration.classDef "Stop" none).withParam ⟨"place", .positionalOnly, some .str, false⟩, rfl⟩
  have hVisit : Callable.Built _ :=
    ⟨((Declaration.function "visit").withParam
        ⟨"stop", .positionalOrKeyword, some (.union [.classRef ⟨"Stop", 1⟩,
          .tagged (.union [.null, .literal [.str "home", .str "home"]]) ["kept"]]),
          false⟩).withParam
        ⟨"days", .keywordOnly, some (.generic .iterable [.classRef ⟨"date", 0⟩]), true⟩, rfl⟩
  have hCatalog := List.forall_mem_cons.mpr
    ⟨hStop, List.forall_mem_singleton.mpr (Callable.built_temporal .date)⟩
  exact (@extract_wellFormed standard _ _ _ atMostTemporal_standard hCatalog hVisit rfl).1

end Extractor

end ToolSchema
