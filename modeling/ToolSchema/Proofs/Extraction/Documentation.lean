import ToolSchema.Proofs.Extraction.Support
import ToolSchema.Proofs.Schema.Erasure

/-! Documentation does not influence behaviour. From declarations that differ in their
documentation only, the same schemas are extracted up to their hints. -/
namespace ToolSchema

open Except (AgreeUpTo)

def Initializer.undocumented (init : Initializer) : Initializer := ⟨none, init.signature⟩

namespace Callable

/-- The callable with its documentation, and that of its initializer, taken off. -/
def undocumented (callable : Callable) : Callable :=
  { callable with doc := none, initializer := callable.initializer.map Initializer.undocumented }

/-- The documentation of the callable and of its initializer. -/
def texts (callable : Callable) : List String :=
  callable.doc.toList ++ (callable.initializer.bind (·.doc)).toList

/-- All of the documentation has a reading. -/
def Readable (callable : Callable) : Prop :=
  ∀ text ∈ callable.texts, (Documentation.read text).isSome = true

theorem callSignature?_undocumented (callable : Callable) :
    callable.undocumented.callSignature? = callable.callSignature? := by
  rw [callSignature?, callSignature?, undocumented, Option.map_map]
  rfl

theorem callSignature?_eq {callable callable' : Callable}
    (h : callable.undocumented = callable'.undocumented) :
    callable.callSignature? = callable'.callSignature? := by
  rw [← callSignature?_undocumented, h, callSignature?_undocumented]

theorem asks_iff {callable callable' : Callable}
    (h : callable.undocumented = callable'.undocumented) (ref : ClassRef) :
    callable.Asks ref ↔ callable'.Asks ref := by
  rw [Asks, Asks, types, types, callSignature?_eq h]

/-- Documentation that has a reading gives hints. -/
theorem Readable.exists_hints {callable : Callable} (h : callable.Readable) :
    ∃ hints, Hints.ofCallable callable = some hints := by
  have hAbsorb (hints : Hints) (text : Option String)
      (hText : ∀ written ∈ text, (Documentation.read written).isSome = true) :
      ∃ all, hints.absorbText text = some all := by
    cases text with
    | none => exact ⟨hints, rfl⟩
    | some written =>
        obtain ⟨doc, hDoc⟩ := Option.isSome_iff_exists.mp (hText written rfl)
        exact ⟨hints.absorb doc, by rw [Hints.absorbText, hDoc]; rfl⟩
  obtain ⟨own, hOwn⟩ := hAbsorb .none callable.doc fun text hm =>
    h text (List.mem_append_left _ (Option.mem_toList.mpr hm))
  obtain ⟨all, hAll⟩ := hAbsorb own
      (if callable.isClass then callable.initializer.bind (·.doc) else none) fun text hm => by
    split at hm
    · exact h text (List.mem_append_right _ (Option.mem_toList.mpr hm))
    · cases hm
  exact ⟨all, by rw [Hints.ofCallable, hOwn]; exact hAll⟩

end Callable

/-- What the strategy claims, and its schema up to hints, does not depend on documentation. -/
def Strategy.IgnoresDocumentation (strategy : Strategy) : Prop :=
  ∀ callable callable', callable.undocumented = callable'.undocumented →
    AgreeUpTo (Option.map CallableSchema.withoutHints) (strategy.claim callable)
      (strategy.claim callable')

/-- The strategy for dates, times and durations looks at what backs a class. Documentation becomes a
hint. -/
theorem Strategy.temporal_ignoresDocumentation : temporal.IgnoresDocumentation := by
  intro callable callable' h
  obtain ⟨hName, -, -, -, -, -, hBacking⟩ := Callable.mk.inj h
  rw [temporal]
  simp only [hName, hBacking]
  exact .refl _

namespace Extractor

variable {extractor : Extractor} {classes classes' : ClassSchemas}

/-- The first strategy that claims one of the callables claims the other one as well. -/
theorem claim_agrees (hStrategies : ∀ strategy ∈ extractor, strategy.IgnoresDocumentation)
    {callable callable' : Callable} (h : callable.undocumented = callable'.undocumented) :
    AgreeUpTo (Option.map CallableSchema.withoutHints) (extractor.claim callable)
      (extractor.claim callable') := by
  induction extractor with
  | nil => exact .refl _
  | cons strategy more ih =>
      rw [List.forall_mem_cons] at hStrategies
      rw [claim, claim]
      refine (hStrategies.1 callable callable' h).bind fun claimed claimed' hClaimed => ?_
      cases claimed with
      | none =>
          cases claimed' with
          | none => exact ih hStrategies.2
          | some schema => cases hClaimed
      | some schema =>
          cases claimed' with
          | none => cases hClaimed
          | some schema' => exact .ok hClaimed

/-! Types -/

/-- Types that are converted one after the other agree if each of them does. -/
theorem convertAll_agrees {types : List TypeExpr} (h : ∀ type ∈ types,
    AgreeUpTo Schema.withoutHints (convert classes type) (convert classes' type)) :
    AgreeUpTo Schema.allWithoutHints (convertAll classes types) (convertAll classes' types) := by
  induction types with
  | nil => exact .refl _
  | cons type more ih =>
      rw [List.forall_mem_cons] at h
      rw [convertAll, convertAll]
      refine h.1.bind fun first first' hFirst => (ih h.2).bind fun rest rest' hRest => .ok ?_
      rw [Schema.allWithoutHints, Schema.allWithoutHints, hFirst, hRest]

theorem convertArms_agrees {arms : List TypeExpr} (h : ∀ arm ∈ arms,
    AgreeUpTo Schema.withoutHints (convert classes arm) (convert classes' arm)) :
    AgreeUpTo Schema.optionsWithoutHints (convertArms classes arms) (convertArms classes' arms) := by
  induction arms with
  | nil => exact .refl _
  | cons arm more ih =>
      rw [List.forall_mem_cons] at h
      by_cases hNull : arm = .null
      · subst hNull
        rw [convertArms, convertArms]
        refine (ih h.2).bind fun rest rest' hRest => .ok ?_
        rw [Schema.optionsWithoutHints, Schema.optionsWithoutHints, hRest]
      · rw [convertArms, convertArms]
        · refine h.1.bind fun first first' hFirst => (ih h.2).bind fun rest rest' hRest => .ok ?_
          rw [Schema.optionsWithoutHints, Schema.optionsWithoutHints, hFirst, hRest]
        · exact hNull
        · exact hNull

/-- The shape of a container is decided by its arguments as types, which are the same on both
sides. -/
theorem convert_generic_agrees (origin : Origin) {args : List TypeExpr} (h : ∀ arg ∈ args,
    AgreeUpTo Schema.withoutHints (convert classes arg) (convert classes' arg)) :
    AgreeUpTo Schema.withoutHints (convert classes (.generic origin args))
      (convert classes' (.generic origin args)) := by
  cases origin with
  | list =>
      rcases args with _ | ⟨item, _ | ⟨_, _⟩⟩
      · exact .refl _
      · rw [convert, convert]
        refine (h item List.mem_cons_self).bind fun schema schema' hSchema => .ok ?_
        rw [Schema.withoutHints, Schema.withoutHints, hSchema]
      · exact .refl _
  | tuple =>
      by_cases hRepeated : ∃ item, args = [item, .ellipsis]
      · obtain ⟨item, rfl⟩ := hRepeated
        rw [convert, convert]
        refine (h item List.mem_cons_self).bind fun schema schema' hSchema => .ok ?_
        rw [Schema.withoutHints, Schema.withoutHints, hSchema]
      · have hOther (item : TypeExpr) : args ≠ [item, .ellipsis] := fun he => hRepeated ⟨item, he⟩
        rw [convert, convert]
        · refine (convertAll_agrees h).bind fun schemas schemas' hSchemas => .ok ?_
          rw [Schema.withoutHints, Schema.withoutHints, hSchemas]
        · exact hOther
        · exact hOther
  | dict =>
      rcases args with _ | ⟨key, _ | ⟨value, _ | ⟨_, _⟩⟩⟩
      · exact .refl _
      · exact .refl _
      · rw [convert, convert]
        refine (h key (by simp)).bind fun first first' hFirst =>
          (h value (by simp)).bind fun second second' hSecond => .ok ?_
        rw [Schema.withoutHints, Schema.withoutHints, hFirst, hSecond]
      · exact .refl _
  | _ => exact .refl _

/-- By induction over the type: only its classes can differ, and these agree. -/
theorem convert_agrees {type : TypeExpr} (h : ∀ ref, type.NamesClass ref →
    AgreeUpTo ObjectSchema.withoutHints (classes ref) (classes' ref)) :
    AgreeUpTo Schema.withoutHints (convert classes type) (convert classes' type) := by
  induction type using TypeExpr.induction with
  | union arms ih =>
      rw [convert, convert]
      refine (convertArms_agrees fun arm hm => ih arm hm fun ref hRef =>
        h ref (.union hm hRef)).bind fun options options' hOptions => .ok ?_
      rw [Schema.withoutHints, Schema.withoutHints, hOptions]
  | generic origin args ih =>
      exact convert_generic_agrees origin fun arg hm => ih arg hm fun ref hRef =>
        h ref (.generic hm hRef)
  | classRef ref =>
      rw [convert, convert]
      refine (h ref .classRef).bind fun object object' hObject => .ok ?_
      exact congrArg Schema.object hObject
  | _ => exact .refl _

theorem schemaOfOption_agrees {type : Option TypeExpr} (h : ∀ written ∈ type,
    ∀ ref, (written.normalize true).NamesClass ref →
      AgreeUpTo ObjectSchema.withoutHints (classes ref) (classes' ref)) :
    AgreeUpTo Schema.withoutHints (schemaOfOption classes type) (schemaOfOption classes' type) := by
  cases type with
  | none => exact .refl _
  | some written => exact convert_agrees (h written rfl)

/-! Callables -/

/-- Fields take their hints from the documentation, and the rest of them from the parameters. -/
theorem fieldsOf_agrees (hints hints' : Hints) {params : List Parameter}
    (h : ∀ type ∈ params.filterMap (·.type), ∀ ref, (type.normalize true).NamesClass ref →
      AgreeUpTo ObjectSchema.withoutHints (classes ref) (classes' ref)) :
    AgreeUpTo Schema.fieldsWithoutHints (fieldsOf classes hints params)
      (fieldsOf classes' hints' params) := by
  induction params with
  | nil => exact .refl _
  | cons param more ih =>
      rw [fieldsOf, fieldsOf]
      refine (schemaOfOption_agrees fun written hm => h written ?_).bind fun schema schema' hSchema =>
        (ih fun type hm => h type ?_).bind fun rest rest' hRest => .ok ?_
      · exact List.mem_filterMap.mpr ⟨param, List.mem_cons_self, hm⟩
      · obtain ⟨other, hOther, hType⟩ := List.mem_filterMap.mp hm
        exact List.mem_filterMap.mpr ⟨other, List.mem_cons_of_mem _ hOther, hType⟩
      · rw [Schema.fieldsWithoutHints, Schema.fieldsWithoutHints, hSchema, hRest]

/-- Without a strategy. -/
theorem schemaOfCallable_of_unclaimed {callable : Callable} {hints : Hints}
    (hUnclaimed : extractor.claim callable = .ok none)
    (hHints : Hints.ofCallable callable = some hints) :
    extractor.schemaOfCallable classes callable =
      match callable.callSignature? with
      | none => .error (.noSignature callable.name)
      | some signature =>
        fieldsOf classes hints signature.params >>= fun fields =>
          schemaOfOption classes signature.returns >>= fun returns =>
            .ok ⟨⟨callable.name, callable.construct, hints.object, signature.positionalOnly, fields⟩,
              returns, hints.long⟩ := by
  rw [schemaOfCallable, hUnclaimed, Except.ok_bind, hHints]
  cases callable.callSignature? <;> rfl

/-- A callable that no strategy claims: its fields and its result agree, and its texts are hints. -/
theorem schemaOfCallable_of_unclaimed_agrees {callable callable' : Callable}
    (h : callable.undocumented = callable'.undocumented) (hReadable : callable.Readable)
    (hReadable' : callable'.Readable) (hUnclaimed : extractor.claim callable = .ok none)
    (hUnclaimed' : extractor.claim callable' = .ok none)
    (hClasses : ∀ ref, callable.Asks ref →
      AgreeUpTo ObjectSchema.withoutHints (classes ref) (classes' ref)) :
    AgreeUpTo CallableSchema.withoutHints (extractor.schemaOfCallable classes callable)
      (extractor.schemaOfCallable classes' callable') := by
  obtain ⟨hints, hHints⟩ := hReadable.exists_hints
  obtain ⟨hints', hHints'⟩ := hReadable'.exists_hints
  obtain ⟨hName, -, -, -, -, hConstruct, -⟩ := Callable.mk.inj h
  rw [schemaOfCallable_of_unclaimed hUnclaimed hHints,
    schemaOfCallable_of_unclaimed hUnclaimed' hHints', ← Callable.callSignature?_eq h]
  have hTypes : ∀ type ∈ callable.types, ∀ ref, (type.normalize true).NamesClass ref →
      AgreeUpTo ObjectSchema.withoutHints (classes ref) (classes' ref) :=
    fun type hm ref hRef => hClasses ref ⟨type, hm, hRef⟩
  rw [Callable.types] at hTypes
  cases hSignature : callable.callSignature? with
  | none =>
      rw [hName]
      exact .refl _
  | some signature =>
      rw [hSignature] at hTypes
      obtain ⟨hParams, hReturns⟩ := List.forall_mem_append.mp hTypes
      refine (fieldsOf_agrees hints hints' hParams).bind fun fields fields' hFields =>
        (schemaOfOption_agrees fun written hm => hReturns written (Option.mem_toList.mpr hm)).bind
          fun returns returns' hReturn => .ok ?_
      rw [CallableSchema.withoutHints, CallableSchema.withoutHints, ObjectSchema.withoutHints,
        ObjectSchema.withoutHints, hFields, hReturn, hName, hConstruct]

/-- What is extracted from one callable is extracted from the other, if this holds of the
classes that are asked for. -/
theorem schemaOfCallable_agrees (hStrategies : ∀ strategy ∈ extractor, strategy.IgnoresDocumentation)
    {callable callable' : Callable} (h : callable.undocumented = callable'.undocumented)
    (hReadable : callable.Readable) (hReadable' : callable'.Readable)
    (hClasses : extractor.claim callable = .ok none → extractor.claim callable' = .ok none →
      ∀ ref, callable.Asks ref → AgreeUpTo ObjectSchema.withoutHints (classes ref) (classes' ref)) :
    AgreeUpTo CallableSchema.withoutHints (extractor.schemaOfCallable classes callable)
      (extractor.schemaOfCallable classes' callable') := by
  have hClaim := claim_agrees hStrategies h
  rcases hOwn : extractor.claim callable with error | _ | schema <;>
    rcases hOther : extractor.claim callable' with error' | _ | schema' <;>
      rw [hOwn, hOther] at hClaim
  case error.error =>
    rw [schemaOfCallable, schemaOfCallable, hOwn, hOther]
    cases hClaim
    rfl
  case ok.none.ok.none =>
    exact schemaOfCallable_of_unclaimed_agrees h hReadable hReadable' hOwn hOther
      (hClasses hOwn hOther)
  case ok.some.ok.some =>
    rw [schemaOfCallable, schemaOfCallable, hOwn, hOther]
    exact .ok (Option.some.inj (Except.ok.inj hClaim))
  all_goals cases hClaim

/-! Classes -/

/-- All documentation that extraction comes to has a reading. -/
def ReadableFrom (extractor : Extractor) (catalog : Catalog) (callable : Callable) : Prop :=
  ∀ other, Reaches extractor catalog callable other → other.Readable

section

variable {catalog : Catalog} {callable : Callable}

theorem ReadableFrom.step (h : ReadableFrom extractor catalog callable) {next : Callable}
    (hStep : Step extractor catalog callable next) : ReadableFrom extractor catalog next :=
  fun other hReaches => h other (.head hStep hReaches)

/-- Among the older declarations no more is reached than among all. -/
theorem ReadableFrom.older {newer : Callable}
    (h : ReadableFrom extractor (newer :: catalog) callable) :
    ReadableFrom extractor catalog callable := by
  intro other hReaches
  refine h other (Relation.ReflTransGen.mono (fun _ _ hStep => ?_) _ _ hReaches)
  obtain ⟨hUnclaimed, ref, hAsks, hNext⟩ := hStep
  exact ⟨hUnclaimed, ref, hAsks, Catalog.get?_cons_of_get? hNext newer⟩

theorem Catalog.mem_of_get? {index : Nat} (h : catalog.get? index = some callable) :
    callable ∈ catalog := by
  induction catalog with
  | nil => cases h
  | cons first older ih =>
      rw [Catalog.get?] at h
      split at h
      · cases h
        exact List.mem_cons_self
      · exact List.mem_cons_of_mem _ (ih h)

/-- It is enough that all documentation in the catalog has a reading. -/
theorem readableFrom_of_forall (hOwn : callable.Readable) (h : ∀ other ∈ catalog, other.Readable) :
    ReadableFrom extractor catalog callable := by
  intro other hReaches
  rcases hReaches.cases_tail with rfl | ⟨_, _, _, ref, _, hNext⟩
  · exact hOwn
  · exact h other (Catalog.mem_of_get? hNext)

/-- The class that was added last is the callable in front, and all other classes are older. -/
theorem classSchema_cons (older : Catalog) (ref : ClassRef) :
    extractor.classSchema (callable :: older) ref =
      if ref.index = older.length then
        (extractor.schemaOfCallable (extractor.classSchema older) callable >>= fun schema =>
          .ok schema.call).mapError (.within callable.name)
      else extractor.classSchema older ref := by
  rw [classSchema]
  cases extractor.schemaOfCallable (extractor.classSchema older) callable <;> rfl

end

/-- The same class of two catalogs. -/
theorem classSchema_agrees (hStrategies : ∀ strategy ∈ extractor, strategy.IgnoresDocumentation)
    {catalog catalog' : Catalog}
    (hCatalog : catalog.map Callable.undocumented = catalog'.map Callable.undocumented)
    (ref : ClassRef)
    (hReadable : ∀ declared, catalog.get? ref.index = some declared →
      ReadableFrom extractor catalog declared)
    (hReadable' : ∀ declared, catalog'.get? ref.index = some declared →
      ReadableFrom extractor catalog' declared) :
    AgreeUpTo ObjectSchema.withoutHints (extractor.classSchema catalog ref)
      (extractor.classSchema catalog' ref) := by
  induction catalog generalizing catalog' ref with
  | nil =>
      rw [List.map_nil, eq_comm, List.map_eq_nil_iff] at hCatalog
      subst hCatalog
      exact .refl _
  | cons callable older ih =>
      cases catalog' with
      | nil => cases hCatalog
      | cons callable' older' =>
          obtain ⟨hCallable, hOlder⟩ := List.cons.inj hCatalog
          have hLength : older.length = older'.length := by
            rw [← List.length_map Callable.undocumented, hOlder, List.length_map]
          have hName : callable.name = callable'.name := (Callable.mk.inj hCallable).1
          rw [Catalog.get?] at hReadable hReadable'
          rw [classSchema_cons, classSchema_cons, ← hLength, ← hName]
          rw [← hLength] at hReadable'
          split
          · next hHere =>
            have hFrom := hReadable callable (if_pos hHere)
            have hFrom' := hReadable' callable' (if_pos hHere)
            have hSchema := @schemaOfCallable_agrees extractor (extractor.classSchema older)
              (extractor.classSchema older') hStrategies _ _ hCallable (hFrom _ .refl) (hFrom' _ .refl)
            refine AgreeUpTo.mapError (AgreeUpTo.bind (hSchema ?_) fun schema schema' h => ?_) _
            · intro hUnclaimed hUnclaimed' other hAsks
              refine ih hOlder other (fun next hNext => ?_) fun next hNext => ?_
              · exact (hFrom.step ⟨hUnclaimed, other, hAsks,
                  Catalog.get?_cons_of_get? hNext callable⟩).older
              · exact (hFrom'.step ⟨hUnclaimed', other, (Callable.asks_iff hCallable other).mp hAsks,
                  Catalog.get?_cons_of_get? hNext callable'⟩).older
            · exact .ok (congrArg CallableSchema.call h)
          · next hOther =>
            rw [if_neg hOther] at hReadable hReadable'
            exact ih hOlder ref (fun declared hGet => (hReadable declared hGet).older)
              fun declared hGet => (hReadable' declared hGet).older

/-- Extraction looks up older classes in the catalog, so the induction is on the catalog. -/
theorem extract_agrees (hStrategies : ∀ strategy ∈ extractor, strategy.IgnoresDocumentation)
    {catalog catalog' : Catalog} {callable callable' : Callable}
    (hCatalog : catalog.map Callable.undocumented = catalog'.map Callable.undocumented)
    (hCallable : callable.undocumented = callable'.undocumented)
    (hReadable : ReadableFrom extractor catalog callable)
    (hReadable' : ReadableFrom extractor catalog' callable') :
    AgreeUpTo CallableSchema.withoutHints (extractor.extract catalog callable)
      (extractor.extract catalog' callable') := by
  have hName : callable.name = callable'.name := (Callable.mk.inj hCallable).1
  rw [extract, extract, ← hName]
  refine AgreeUpTo.mapError (schemaOfCallable_agrees hStrategies hCallable (hReadable _ .refl)
    (hReadable' _ .refl) fun hUnclaimed hUnclaimed' ref hAsks => ?_) _
  refine classSchema_agrees hStrategies hCatalog ref (fun next hNext => ?_) fun next hNext => ?_
  · exact hReadable.step ⟨hUnclaimed, ref, hAsks, hNext⟩
  · exact hReadable'.step ⟨hUnclaimed', ref, (Callable.asks_iff hCallable ref).mp hAsks, hNext⟩

/-- Documentation does not influence behaviour. From declarations that differ in their
documentation only, either both or none are extracted. The two schemas are the same up to
hints, they do the same with every value, failures included, and they have the same documents
up to descriptions. -/
theorem documentation_without_influence
    (hStrategies : ∀ strategy ∈ extractor, strategy.IgnoresDocumentation)
    {catalog catalog' : Catalog} {callable callable' : Callable}
    (hCatalog : catalog.map Callable.undocumented = catalog'.map Callable.undocumented)
    (hCallable : callable.undocumented = callable'.undocumented)
    (hReadable : ReadableFrom extractor catalog callable)
    (hReadable' : ReadableFrom extractor catalog' callable') :
    ((∃ schema, extractor.extract catalog callable = .ok schema) ↔
        ∃ schema', extractor.extract catalog' callable' = .ok schema') ∧
      ∀ schema schema', extractor.extract catalog callable = .ok schema →
        extractor.extract catalog' callable' = .ok schema' →
        schema.withoutHints = schema'.withoutHints ∧
        (∀ value, schema.eval value = schema'.eval value) ∧
        ∀ flavor withLong withLong',
          (schema.describe flavor withLong).map ToolDocument.withoutDescriptions =
            (schema'.describe flavor withLong').map ToolDocument.withoutDescriptions := by
  have hAgree := extract_agrees hStrategies hCatalog hCallable hReadable hReadable'
  refine ⟨hAgree.exists_ok_iff, fun schema schema' hSchema hSchema' => ?_⟩
  rw [hSchema, hSchema'] at hAgree
  have hSame : schema.withoutHints = schema'.withoutHints := Except.ok.inj hAgree
  refine ⟨hSame, fun value => ?_, fun flavor withLong withLong' => ?_⟩
  · rw [← schema.eval_withoutHints, hSame, schema'.eval_withoutHints]
  · have hFirst := schema.describe_agrees flavor withLong withLong
    have hSecond := schema'.describe_agrees flavor withLong withLong'
    rw [hSame] at hFirst
    exact hFirst.symm.trans hSecond

/-- A class with one field. -/
def stop (doc : String) : Callable :=
  ⟨"Stop", .classDef, some doc, some ⟨[⟨"place", .positionalOrKeyword, some .str, false⟩], none⟩,
    none, .record "Stop" [], none⟩

/-- A function with a parameter of this class. -/
def visit (doc : String) : Callable :=
  ⟨"visit", .function, some doc,
    some ⟨[⟨"stop", .positionalOrKeyword, some (.classRef ⟨"Stop", 0⟩), false⟩], none⟩,
    none, .record "visit" [], none⟩

/-- Two ways to document a function and the class of its parameter, in different layouts. -/
theorem visit_without_influence : ∃ schema schema',
    standard.extract [stop "A place."] (visit "Goes there.\n\n:param stop: Where to go.") =
        .ok schema ∧
      standard.extract [stop "A stop.\n\nArgs:\n    place: Its name."] (visit "Goes on.") =
        .ok schema' ∧
      schema.withoutHints = schema'.withoutHints ∧
      ∀ value, schema.eval value = schema'.eval value := by
  have hOne {callable : Callable} {text : String} (hTexts : callable.texts = [text])
      (hText : (Documentation.read text).isSome = true) : callable.Readable := by
    rw [Callable.Readable, hTexts, List.forall_mem_singleton]
    exact hText
  have hFirst : ReadableFrom standard [stop "A place."]
      (visit "Goes there.\n\n:param stop: Where to go.") :=
    readableFrom_of_forall (hOne rfl rfl) (List.forall_mem_singleton.mpr (hOne rfl rfl))
  have hSecond : ReadableFrom standard [stop "A stop.\n\nArgs:\n    place: Its name."]
      (visit "Goes on.") :=
    readableFrom_of_forall (hOne rfl rfl) (List.forall_mem_singleton.mpr (hOne rfl rfl))
  have hStrategies : ∀ strategy ∈ standard, strategy.IgnoresDocumentation :=
    List.forall_mem_singleton.mpr Strategy.temporal_ignoresDocumentation
  have hCatalog : [stop "A place."].map Callable.undocumented =
      [stop "A stop.\n\nArgs:\n    place: Its name."].map Callable.undocumented := rfl
  have hVisit : (visit "Goes there.\n\n:param stop: Where to go.").undocumented =
      (visit "Goes on.").undocumented := rfl
  obtain ⟨hBoth, hSchemas⟩ :=
    documentation_without_influence hStrategies hCatalog hVisit hFirst hSecond
  have hOk : ∃ schema, standard.extract [stop "A place."]
      (visit "Goes there.\n\n:param stop: Where to go.") = .ok schema := ⟨_, rfl⟩
  obtain ⟨schema, hSchema⟩ := hOk
  obtain ⟨schema', hSchema'⟩ := hBoth.mp ⟨schema, hSchema⟩
  obtain ⟨hSame, hEval, -⟩ := hSchemas schema schema' hSchema hSchema'
  exact ⟨schema, schema', hSchema, hSchema', hSame, hEval⟩

end Extractor

end ToolSchema
