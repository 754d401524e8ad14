import ToolSchema.Extraction.Extractor
import ToolSchema.Proofs.Except
import ToolSchema.Proofs.Pairs

/-! The schemas that are extracted from declarations. -/
namespace ToolSchema.Extractor

open Except (bind_eq_ok_iff pure_eq_ok_iff)

/-- There is a field for each parameter, in order. -/
theorem fieldsOf_ok {classes : ClassSchemas} {hints : Hints} {params : List Parameter}
    {fields : List (Field Schema)} (h : fieldsOf classes hints params = .ok fields) :
    List.Forall₂ (fun param field => param.name = field.name ∧ field.required = !param.hasDefault ∧
      schemaOfOption classes param.type = .ok field.schema) params fields := by
  induction params generalizing fields with
  | nil =>
      cases h
      exact .nil
  | cons param more ih =>
      obtain ⟨schema, hSchema, h⟩ := bind_eq_ok_iff.mp h
      obtain ⟨rest, hRest, h⟩ := bind_eq_ok_iff.mp h
      cases h
      exact .cons ⟨rfl, rfl, hSchema⟩ (ih hRest)

/-- Without a strategy the schema is put together from the signature, as a caller sees
it, and the documentation. -/
theorem schemaOfCallable_eq_ok_iff {extractor : Extractor} {classes : ClassSchemas}
    {callable : Callable} {schema : CallableSchema}
    (hUnclaimed : extractor.claim callable = .ok none) :
    extractor.schemaOfCallable classes callable = .ok schema ↔
      ∃ signature hints fields returns, callable.callSignature? = some signature ∧
        Hints.ofCallable callable = some hints ∧
        fieldsOf classes hints signature.params = .ok fields ∧
        schemaOfOption classes signature.returns = .ok returns ∧
        schema = ⟨⟨callable.name, callable.construct, hints.object, signature.positionalOnly,
          fields⟩, returns, hints.long⟩ := by
  rw [schemaOfCallable, hUnclaimed, Except.ok_bind]
  constructor
  · intro h
    cases hSignature : callable.callSignature? with
    | none =>
        rw [hSignature] at h
        cases h
    | some signature =>
        rw [hSignature] at h
        cases hHints : Hints.ofCallable callable with
        | none =>
            rw [hHints] at h
            cases h
        | some hints =>
            rw [hHints] at h
            obtain ⟨fields, hFields, h⟩ := bind_eq_ok_iff.mp h
            obtain ⟨returns, hReturns, h⟩ := bind_eq_ok_iff.mp h
            cases h
            exact ⟨signature, hints, fields, returns, rfl, rfl, hFields, hReturns, rfl⟩
  · rintro ⟨signature, hints, fields, returns, hSignature, hHints, hFields, hReturns, rfl⟩
    rw [hSignature, hHints]
    exact bind_eq_ok_iff.mpr ⟨fields, hFields, bind_eq_ok_iff.mpr ⟨returns, hReturns, rfl⟩⟩

/-- Without a strategy the schema is that of the parameters as a caller sees
them, with the constructor of the callable. -/
theorem extract_unclaimed {extractor : Extractor} {catalog : Catalog} {callable : Callable}
    {schema : CallableSchema} (hUnclaimed : extractor.claim callable = .ok none)
    (h : extractor.extract catalog callable = .ok schema) :
    ∃ signature, callable.callSignature? = some signature ∧
      schema.call.construct = callable.construct ∧
      schema.call.positionalOnly = signature.positionalOnly ∧
      List.Forall₂ (fun param field => param.name = field.name ∧
        field.required = !param.hasDefault ∧
        schemaOfOption (extractor.classSchema catalog) param.type = .ok field.schema)
        signature.params schema.call.fields := by
  obtain ⟨signature, hints, fields, returns, hSignature, -, hFields, -, rfl⟩ :=
    (schemaOfCallable_eq_ok_iff hUnclaimed).mp (Except.mapError_eq_ok_iff.mp h)
  exact ⟨signature, hSignature, rfl, rfl, fieldsOf_ok hFields⟩

end ToolSchema.Extractor
