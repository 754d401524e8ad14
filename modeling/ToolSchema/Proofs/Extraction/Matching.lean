import ToolSchema.Proofs.Callable.Related
import ToolSchema.Proofs.Extraction.Conversion
import ToolSchema.Proofs.TypeExpr.Matching

/-! Extraction from declarations that differ only in where classes are placed.
Classes that stand for each other have the same schema, and so have callables
whose types match. -/
namespace ToolSchema

open TypeExpr (Matches)

namespace Extractor

variable {r : ClassRef → ClassRef → Prop} {classes classes' : ClassSchemas}

/-! Conversion -/

/-- Arguments are converted one by one. For arms it is also needed which of them are null, which
matching types agree in. -/
theorem convertAll_eq {ss ts : List TypeExpr}
    (h : List.Forall₂ (fun s t => convert classes s = convert classes' t) ss ts) :
    convertAll classes ss = convertAll classes' ts := by
  induction h with
  | nil => rfl
  | cons hFirst _ ih => rw [convertAll, convertAll, hFirst, ih]

theorem convertArms_eq {ss ts : List TypeExpr}
    (h : List.Forall₂ (fun s t => Matches r s t ∧ convert classes s = convert classes' t) ss ts) :
    convertArms classes ss = convertArms classes' ts := by
  induction h with
  | nil => rfl
  | @cons s t _ _ hFirst _ ih =>
      obtain ⟨hMatches, hConvert⟩ := hFirst
      by_cases hNull : s = .null
      · subst hNull
        cases hMatches
        rw [convertArms, convertArms, ih]
      · have hNull' : t ≠ .null := by
          rintro rfl
          cases hMatches
          exact hNull rfl
        rw [convertArms, convertArms, hConvert, ih] <;> assumption

theorem unsupportedType_eq {α : Type} {s t : TypeExpr} (hText : s.text = t.text) :
    (unsupportedType s : Except Error α) = unsupportedType t := by
  rw [unsupportedType, unsupportedType, hText]

/-- The mark of a repeated item stands in both tuples or in none. -/
theorem repeated_iff {ss ts : List TypeExpr} (h : List.Forall₂ (Matches r) ss ts) :
    (∃ item, ss = [item, .ellipsis]) ↔ ∃ item, ts = [item, .ellipsis] := by
  constructor
  · intro hItem
    obtain ⟨_, rfl⟩ := hItem
    match ts, h with
    | _, .cons _ (.cons .ellipsis .nil) => exact ⟨_, rfl⟩
  · intro hItem
    obtain ⟨_, rfl⟩ := hItem
    match ss, h with
    | _, .cons _ (.cons .ellipsis .nil) => exact ⟨_, rfl⟩

/-- Matching arguments have the same texts and repetitions, so containers of them are converted
alike. -/
theorem convert_generic_eq (hName : ∀ a b, r a b → a.name = b.name) (origin : Origin)
    {ss ts : List TypeExpr} (hArgs : List.Forall₂ (Matches r) ss ts)
    (hConvert : List.Forall₂ (fun s t => convert classes s = convert classes' t) ss ts) :
    convert classes (.generic origin ss) = convert classes' (.generic origin ts) := by
  have hText := (TypeExpr.matches_generic origin hArgs).text_eq hName
  have hLength := hArgs.length_eq
  cases origin with
  | list =>
      rcases hConvert with _ | ⟨hItem, _ | ⟨_, _⟩⟩
      · rfl
      · rw [convert, convert, hItem]
      · change Except.error (Error.declaration (.oneArgument _ _)) =
          Except.error (Error.declaration (.oneArgument _ _))
        rw [hText, hLength]
  | tuple =>
      by_cases hRepeated : ∃ item, ss = [item, .ellipsis]
      · obtain ⟨item', rfl⟩ := (repeated_iff hArgs).mp hRepeated
        obtain ⟨item, rfl⟩ := hRepeated
        cases hConvert with
        | cons hItem _ => rw [convert, convert, hItem]
      · have hOther (item : TypeExpr) : ss ≠ [item, .ellipsis] := fun he => hRepeated ⟨item, he⟩
        have hOther' (item : TypeExpr) : ts ≠ [item, .ellipsis] := fun he =>
          hRepeated ((repeated_iff hArgs).mpr ⟨item, he⟩)
        rw [convert, convert, convertAll_eq hConvert] <;> assumption
  | dict =>
      rcases hConvert with _ | ⟨hKey, _ | ⟨hValue, _ | ⟨_, _⟩⟩⟩
      · rfl
      · change Except.error (Error.declaration (.twoArguments _ _)) =
          Except.error (Error.declaration (.twoArguments _ _))
        rw [hText, hLength]
      · rw [convert, convert, hKey, hValue]
      · change Except.error (Error.declaration (.twoArguments _ _)) =
          Except.error (Error.declaration (.twoArguments _ _))
        rw [hText, hLength]
  | _ => exact unsupportedType_eq hText

/-- Matching types are converted to the same schema if their classes have the same
schemas. -/
theorem convert_matches (hName : ∀ a b, r a b → a.name = b.name)
    (hClasses : ∀ a b, r a b → classes a = classes' b) {s t : TypeExpr} (h : Matches r s t) :
    convert classes s = convert classes' t := by
  induction h with
  | named name h _ => exact unsupportedType_eq ((Matches.named name h).text_eq hName)
  | tagged tags h _ => exact unsupportedType_eq ((Matches.tagged tags h).text_eq hName)
  | union hLength h ih =>
      rw [convert, convert, convertArms_eq (List.forall₂_iff_zip.mpr
        ⟨hLength, fun hm => ⟨h _ _ hm, ih _ _ hm⟩⟩)]
  | generic origin hLength h ih =>
      exact convert_generic_eq hName origin (List.forall₂_iff_zip.mpr ⟨hLength, h _ _⟩)
        (List.forall₂_iff_zip.mpr ⟨hLength, ih _ _⟩)
  | classRef h => rw [convert, convert, hClasses _ _ h]
  | _ => rfl

/-! Callables -/

section

variable (hName : ∀ a b, r a b → a.name = b.name)
  (hUnique : ∀ a b a' b', r a b → r a' b' → (a.index = a'.index ↔ b.index = b'.index))
  (hClasses : ∀ a b, r a b → classes a = classes' b)

include hName hUnique hClasses

/-- Types match after they are brought into their normal forms. -/
theorem schemaOfOption_matches {type type' : Option TypeExpr}
    (h : Option.Rel (Matches r) type type') :
    schemaOfOption classes type = schemaOfOption classes' type' := by
  cases h with
  | none => rfl
  | some h => exact convert_matches hName hClasses (h.normalize hUnique true)

/-- Fields get their names and hints from what related parameters have in common. -/
theorem fieldsOf_matches (hints : Hints) {params params' : List Parameter}
    (h : List.Forall₂ (Parameter.Related (Matches r)) params params') :
    fieldsOf classes hints params = fieldsOf classes' hints params' := by
  induction h with
  | nil => rfl
  | cons hFirst _ ih =>
      rw [fieldsOf, fieldsOf, schemaOfOption_matches hName hUnique hClasses hFirst.type,
        hFirst.name, hFirst.hasDefault, ih]

end

section

variable {q : TypeExpr → TypeExpr → Prop}

/-- Parameters may be left out on both sides by anything but their types. -/
theorem filter_related {keep : Parameter → Bool}
    (hKeep : ∀ param param', Parameter.Related q param param' → keep param = keep param')
    {params params' : List Parameter} (h : List.Forall₂ (Parameter.Related q) params params') :
    List.Forall₂ (Parameter.Related q) (params.filter keep) (params'.filter keep) := by
  refine List.rel_filter (fun param param' hParam => ?_) h
  change keep param = true ↔ keep param' = true
  rw [hKeep param param' hParam]

theorem withoutReceiver_related {signature signature' : Signature}
    (h : signature.Related q signature') :
    signature.withoutReceiver.Related q signature'.withoutReceiver where
  params := filter_related (fun _ _ hParam => by rw [hParam.name]) h.params
  returns := h.returns

theorem positionalOnly_eq {signature signature' : Signature} (h : signature.Related q signature') :
    signature.positionalOnly = signature'.positionalOnly := by
  have hParams := @filter_related q (·.passing == .positionalOnly)
    (fun _ _ hParam => by rw [hParam.passing]) _ _ h.params
  exact (hParams.imp fun _ _ hParam => hParam.name).map_eq

/-- Callables that differ in their types only are called through related signatures, or cannot be
called. -/
theorem callSignature?_related {callable callable' : Callable}
    (h : callable.Related q callable') :
    Option.Rel (Signature.Related q) callable.callSignature? callable'.callSignature? := by
  obtain ⟨_, _, _, signature, initializer, _, _⟩ := callable
  obtain ⟨_, _, _, signature', initializer', _, _⟩ := callable'
  obtain ⟨_, _, _, hSignature, hInitializer, _, _⟩ := h
  dsimp only at hSignature hInitializer
  cases hSignature with
  | some hOwn => exact .some hOwn
  | none =>
      cases hInitializer with
      | none => exact .none
      | some hInit => exact .some (withoutReceiver_related hInit.signature)

/-- Documentation is the same on both sides. -/
theorem hints_eq {callable callable' : Callable}
    (h : callable.Related q callable') : Hints.ofCallable callable = Hints.ofCallable callable' := by
  have hInit : callable.initializer.bind (·.doc) = callable'.initializer.bind (·.doc) := by
    have hInitializer := h.initializer
    generalize callable.initializer = init, callable'.initializer = init' at hInitializer ⊢
    cases hInitializer with
    | none => rfl
    | some hInit => exact hInit.doc
  rw [Hints.ofCallable, Hints.ofCallable, Callable.isClass, Callable.isClass, h.doc, h.kind, hInit]

end

/-- The extractor looks at a callable without its types. -/
def Typeless (extractor : Extractor) : Prop :=
  ∀ q callable callable', Callable.Related q callable callable' →
    extractor.claim callable = extractor.claim callable'

/-- The standard strategy looks at what backs a class. -/
theorem typeless_standard : Typeless standard := by
  intro q callable callable' h
  rw [standard, claim, claim, Strategy.temporal]
  simp only [h.backing, h.name]
  rfl

/-- A callable gets the same schema if its classes do. -/
theorem schemaOfCallable_matches {extractor : Extractor} (hTypeless : extractor.Typeless)
    (hName : ∀ a b, r a b → a.name = b.name)
    (hUnique : ∀ a b a' b', r a b → r a' b' → (a.index = a'.index ↔ b.index = b'.index))
    (hClasses : ∀ a b, r a b → classes a = classes' b) {callable callable' : Callable}
    (h : callable.Related (Matches r) callable') :
    extractor.schemaOfCallable classes callable =
      extractor.schemaOfCallable classes' callable' := by
  have hSignature := callSignature?_related h
  rw [schemaOfCallable, schemaOfCallable, hTypeless _ _ _ h, hints_eq h, h.name, h.construct]
  generalize callable.callSignature? = own, callable'.callSignature? = own' at hSignature ⊢
  cases hSignature with
  | none => rfl
  | some hOwn =>
      have hFields (hints : Hints) := fieldsOf_matches hName hUnique hClasses hints hOwn.params
      have hReturns := schemaOfOption_matches hName hUnique hClasses hOwn.returns
      simp only [hFields, hReturns, positionalOnly_eq hOwn]

end Extractor

/-! Catalogs -/

/-- Classes of two catalogs that stand for each other one to one. They have the same
name and the same declaration, in which older classes stand for each other. -/
structure Correspondence (catalog catalog' : Catalog) (r : ClassRef → ClassRef → Prop) : Prop where
  name {a b : ClassRef} (h : r a b) : a.name = b.name
  unique {a b a' b' : ClassRef} (h : r a b) (h' : r a' b') :
    a.index = a'.index ↔ b.index = b'.index
  declaration {a b : ClassRef} (h : r a b) : ∃ callable callable',
    catalog.get? a.index = some callable ∧ catalog'.get? b.index = some callable' ∧
      callable.Related (Matches fun older older' =>
        r older older' ∧ older.index < a.index ∧ older'.index < b.index) callable'

namespace Extractor

variable {extractor : Extractor}

/-- The schema of a class is that of its declaration among the older ones. -/
theorem classSchema_of_get? {catalog : Catalog} {ref : ClassRef} {callable : Callable}
    (h : catalog.get? ref.index = some callable) : ∃ classes : ClassSchemas,
      (∀ older, older.index < ref.index → classes older = extractor.classSchema catalog older) ∧
      extractor.classSchema catalog ref =
        ((extractor.schemaOfCallable classes callable).map (·.call)).mapError
          (.within callable.name) := by
  induction catalog with
  | nil => cases h
  | cons first older ih =>
      rw [Catalog.get?] at h
      split at h
      · next hHere =>
        cases h
        refine ⟨extractor.classSchema older, fun other hOther => ?_, ?_⟩
        · rw [classSchema, if_neg (by omega)]
        · rw [classSchema, if_pos hHere]
          cases extractor.schemaOfCallable (extractor.classSchema older) callable <;> rfl
      · next hOlder =>
        obtain ⟨classes, hClasses, hSchema⟩ := ih h
        have hBound := Catalog.lt_length_of_get? h
        refine ⟨classes, fun other hOther => ?_, ?_⟩
        · rw [hClasses other hOther, classSchema, if_neg (by omega)]
        · rw [classSchema, if_neg hOlder, hSchema]

section

variable {catalog catalog' : Catalog} {r : ClassRef → ClassRef → Prop}

/-- Classes that stand for each other have the same schema. -/
theorem classSchema_eq (hTypeless : extractor.Typeless) (h : Correspondence catalog catalog' r)
    {a b : ClassRef} (hRef : r a b) :
    extractor.classSchema catalog a = extractor.classSchema catalog' b := by
  induction hIndex : a.index using Nat.strongRecOn generalizing a b with
  | ind n ih =>
      subst hIndex
      obtain ⟨callable, callable', hGet, hGet', hRelated⟩ := h.declaration hRef
      obtain ⟨classes, hClasses, hSchema⟩ := @classSchema_of_get? extractor _ _ _ hGet
      obtain ⟨classes', hClasses', hSchema'⟩ := @classSchema_of_get? extractor _ _ _ hGet'
      have hOlder (older older' : ClassRef)
          (hOlder : r older older' ∧ older.index < a.index ∧ older'.index < b.index) :
          classes older = classes' older' := by
        rw [hClasses older hOlder.2.1, hClasses' older' hOlder.2.2]
        exact ih _ hOlder.2.1 hOlder.1 rfl
      rw [hSchema, hSchema', hRelated.name,
        schemaOfCallable_matches hTypeless (fun _ _ hOlder => h.name hOlder.1)
          (fun _ _ _ _ hOlder hOther => h.unique hOlder.1 hOther.1) hOlder hRelated]

/-- The same schema is extracted for callables whose types match. -/
theorem extract_eq (hTypeless : extractor.Typeless) (h : Correspondence catalog catalog' r)
    {callable callable' : Callable} (hRelated : callable.Related (Matches r) callable') :
    extractor.extract catalog callable = extractor.extract catalog' callable' := by
  rw [extract, extract, hRelated.name, schemaOfCallable_matches hTypeless (fun _ _ => h.name)
    (fun _ _ _ _ => h.unique) (fun _ _ => classSchema_eq hTypeless h) hRelated]

end

end Extractor

end ToolSchema
