import ToolSchema.Proofs.Extraction.Support

/-! Where failures of extraction arise. A callable fails for a reason of its own or at a
class that it asks for, so every failure can be followed to the declaration where it
arose. -/
namespace ToolSchema

open Except (bind_eq_error_iff map_eq_error_iff mapError_eq_error_iff)

namespace Extractor

/-! Parameters and results -/

section

variable {classes : ClassSchemas} {error : Error}

theorem exists_of_schemaOfOption_eq_error {type : Option TypeExpr}
    (h : schemaOfOption classes type = .error error) :
    ∃ written ∈ type.toList, Blames classes (written.normalize true) error := by
  cases type with
  | none => cases h
  | some written => exact ⟨written, List.mem_singleton_self _, blames_of_convert h⟩

/-- Fields fail by the type of one of the parameters. -/
theorem exists_of_fieldsOf_eq_error {hints : Hints} {params : List Parameter}
    (h : fieldsOf classes hints params = .error error) :
    ∃ type ∈ params.filterMap (·.type), Blames classes (type.normalize true) error := by
  induction params with
  | nil => cases h
  | cons param more ih =>
      rcases bind_eq_error_iff.mp h with hFirst | ⟨_, _, hRest⟩
      · obtain ⟨type, hm, hBlames⟩ := exists_of_schemaOfOption_eq_error hFirst
        exact ⟨type, List.mem_filterMap.mpr ⟨param, .head _, Option.mem_toList.mp hm⟩, hBlames⟩
      · rcases bind_eq_error_iff.mp hRest with hMore | ⟨_, _, hPure⟩
        · obtain ⟨type, hm, hBlames⟩ := ih hMore
          obtain ⟨other, hOther, hType⟩ := List.mem_filterMap.mp hm
          exact ⟨type, List.mem_filterMap.mpr ⟨other, .tail _ hOther, hType⟩, hBlames⟩
        · cases hPure

end

/-! Callables -/

section

variable {extractor : Extractor} {callable : Callable} {error : Error}

/-- The failure is one of the callable itself and not of a class that it asks for. -/
inductive Arises (extractor : Extractor) (callable : Callable) : Error → Prop
  | strategy {error : Error} (h : extractor.claim callable = .error error) :
      Arises extractor callable error
  | signature (hUnclaimed : extractor.claim callable = .ok none)
      (h : callable.callSignature? = none) : Arises extractor callable (.noSignature callable.name)
  | documentation (hUnclaimed : extractor.claim callable = .ok none)
      (h : Hints.ofCallable callable = none) : Arises extractor callable .unreadableDocumentation
  | type (hUnclaimed : extractor.claim callable = .ok none) {type : TypeExpr}
      (hm : type ∈ callable.types) {fault : DeclarationFault}
      (h : (type.normalize true).Faulty fault) : Arises extractor callable (.declaration fault)

/-- A callable that no strategy claims fails for want of a signature or of documentation that can be
read, or by one of its types. -/
theorem arises_of_unclaimed {classes : ClassSchemas}
    (hUnclaimed : extractor.claim callable = .ok none)
    (h : extractor.schemaOfCallable classes callable = .error error) :
    Arises extractor callable error ∨
      ∃ type ∈ callable.types, Blames classes (type.normalize true) error := by
  rw [schemaOfCallable, hUnclaimed, Except.ok_bind] at h
  rw [Callable.types]
  cases hSignature : callable.callSignature? with
  | none =>
      rw [hSignature] at h
      cases h
      exact .inl (.signature hUnclaimed hSignature)
  | some signature =>
      rw [hSignature] at h
      cases hHints : Hints.ofCallable callable with
      | none =>
          rw [hHints] at h
          cases h
          exact .inl (.documentation hUnclaimed hHints)
      | some hints =>
          rw [hHints] at h
          refine .inr ?_
          rcases bind_eq_error_iff.mp h with hFields | ⟨_, _, hRest⟩
          · obtain ⟨type, hm, hType⟩ := exists_of_fieldsOf_eq_error hFields
            exact ⟨type, List.mem_append_left _ hm, hType⟩
          · rcases bind_eq_error_iff.mp hRest with hReturns | ⟨_, _, hPure⟩
            · obtain ⟨type, hm, hType⟩ := exists_of_schemaOfOption_eq_error hReturns
              exact ⟨type, List.mem_append_right _ hm, hType⟩
            · cases hPure

/-- A callable fails for a reason of its own or with the failure of a class that it asks
for. -/
theorem arises_of_schemaOfCallable {classes : ClassSchemas}
    (h : extractor.schemaOfCallable classes callable = .error error) :
    Arises extractor callable error ∨ extractor.claim callable = .ok none ∧
      ∃ ref, callable.Asks ref ∧ classes ref = .error error := by
  cases hClaim : extractor.claim callable with
  | error claimed =>
      rw [schemaOfCallable, hClaim] at h
      cases h
      exact .inl (.strategy hClaim)
  | ok claimed =>
      cases claimed with
      | some schema =>
          rw [schemaOfCallable, hClaim] at h
          cases h
      | none =>
          rcases arises_of_unclaimed hClaim h with hArises | ⟨type, hm, hBlames⟩
          · exact .inl hArises
          · obtain ⟨fault, hFault, rfl⟩ | ⟨ref, hRef, hClass⟩ := hBlames
            · exact .inl (.type hClaim hm hFault)
            · exact .inr ⟨rfl, ref, ⟨type, hm, hRef⟩, hClass⟩

end

end Extractor

/-! Classes -/

namespace Error

/-- On its way out, a failure is wrapped in the name of the class. -/
theorem within_eq_extraction {error : Error} (h : error ≠ .unreadableDocumentation)
    (target : String) : error.within target = .extraction target error := by
  cases error with
  | unreadableDocumentation => exact absurd rfl h
  | _ => rfl

theorem within_eq_unreadableDocumentation_iff {target : String} {error : Error} :
    error.within target = .unreadableDocumentation ↔ error = .unreadableDocumentation := by
  cases error <;> simp [within]

end Error

namespace Extractor

variable {extractor : Extractor} {catalog : Catalog} {callable : Callable} {error : Error}

/-- The failure of a callable, followed through the classes that it asks for. On its way
out it is wrapped once for each class. -/
inductive Trail (extractor : Extractor) (catalog : Catalog) : Callable → Error → Prop
  | here {callable : Callable} {error : Error} (h : Arises extractor callable error) :
      Trail extractor catalog callable error
  | through {callable other : Callable} {error : Error}
      (hStep : Step extractor catalog callable other) (h : Trail extractor catalog other error) :
      Trail extractor catalog callable (error.within other.name)

/-- If this is known of the classes that a callable asks for, it is true of the
callable. -/
theorem trail_of_classes {classes : ClassSchemas}
    (hClasses : ∀ ref error, callable.Asks ref → classes ref = .error error →
      ∃ other inner, catalog.get? ref.index = some other ∧ error = inner.within other.name ∧
        Trail extractor catalog other inner)
    (h : extractor.schemaOfCallable classes callable = .error error) :
    Trail extractor catalog callable error := by
  rcases arises_of_schemaOfCallable h with hHere | ⟨hUnclaimed, ref, hAsks, hClass⟩
  · exact .here hHere
  · obtain ⟨other, inner, hOther, rfl, hTrail⟩ := hClasses ref error hAsks hClass
    exact .through ⟨hUnclaimed, ref, hAsks, hOther⟩ hTrail

section

variable {among : ClassRef → Prop} (hGrounded : catalog.Grounded among)

include hGrounded

/-- A class fails by the failure of its declaration, which is followed by induction on the
catalog. -/
theorem trail_of_classSchema {ref : ClassRef} (hRef : among ref)
    (h : extractor.classSchema catalog ref = .error error) :
    ∃ other inner, catalog.get? ref.index = some other ∧ error = inner.within other.name ∧
      Trail extractor catalog other inner := by
  induction hIndex : ref.index using Nat.strongRecOn generalizing ref error with
  | ind n ih =>
      subst hIndex
      obtain ⟨other, hOther, hOlder⟩ := hGrounded ref hRef
      obtain ⟨classes, hClasses, hSchema⟩ := @classSchema_of_get? extractor _ _ _ hOther
      obtain ⟨inner, hInner, rfl⟩ := mapError_eq_error_iff.mp (hSchema.symm.trans h)
      refine ⟨other, inner, hOther, rfl, trail_of_classes ?_ (map_eq_error_iff.mp hInner)⟩
      intro older error hAsks hError
      obtain ⟨hAmong, hBefore⟩ := hOlder older hAsks
      exact ih older.index hBefore hAmong (hClasses older hBefore ▸ hError) rfl

/-- Every failure has a trail. -/
theorem trail_of_schemaOfCallable (hAsks : ∀ ref, callable.Asks ref → among ref)
    (h : extractor.schemaOfCallable (extractor.classSchema catalog) callable = .error error) :
    Trail extractor catalog callable error :=
  trail_of_classes (fun _ _ hRef => trail_of_classSchema hGrounded (hAsks _ hRef)) h

end

end Extractor

end ToolSchema
