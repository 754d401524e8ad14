import ToolSchema.Proofs.Extraction.Support
import ToolSchema.Proofs.Manifest.Resolved

/-! Which declarations of a manifest have schemas. A record class without fields is
built without a signature, so neither it nor what reaches it has a schema. -/
namespace ToolSchema

open Except (toOption_eq_some_iff)
open Extractor (Fit Reaches Step)
open TypeExpr (Matches)

/-! Single callables -/

/-- Only the documentation of an initializer is read besides that of the callable. -/
theorem Hints.isSome_ofCallable {callable : Callable} (hInit : callable.initializer = .none)
    (hDoc : ∀ text ∈ callable.doc, (Documentation.read text).isSome = true) :
    (Hints.ofCallable callable).isSome = true := by
  have hOwn : (Hints.none.absorbText callable.doc).isSome = true := by
    cases hText : callable.doc with
    | none => rfl
    | some text =>
        rw [absorbText, Option.isSome_map]
        exact hDoc text hText
  obtain ⟨hints, hHints⟩ := Option.isSome_iff_exists.mp hOwn
  have hNothing : (if callable.isClass then (Option.none : Option Initializer).bind (·.doc)
      else Option.none) = Option.none := by
    split <;> rfl
  rw [ofCallable, hHints, hInit, hNothing]
  rfl

/-- A callable without types asks for no class. -/
theorem Callable.not_asks_of_no_types {callable : Callable} (h : callable.types = [])
    (ref : ClassRef) : ¬ callable.Asks ref := by
  intro hAsks
  obtain ⟨type, hm, _⟩ := hAsks
  rw [h] at hm
  cases hm

/-- A record class or a function is no date, time or duration. -/
theorem Extractor.fit_standard_iff {callable : Callable} (hBacking : callable.backing = none) :
    Fit standard callable ↔ callable.callSignature?.isSome = true ∧
      (Hints.ofCallable callable).isSome = true ∧
        ∀ type ∈ callable.types, (type.normalize true).Supported := by
  have hUnclaimed : standard.claim callable = .ok none := by
    simp only [standard, claim, Strategy.temporal, hBacking]
    rfl
  simp [Fit, hUnclaimed]

/-- A record class is fit if it has fields, as far as its documentation and the forms of
its types go. -/
theorem TypeDecl.fit_iff {decl : TypeDecl} {known : Entries TypeExpr} {callable : Callable}
    (hBuild : decl.plan.build known = .ok callable)
    (hDoc : ∀ text ∈ decl.doc, (Documentation.read text).isSome = true)
    (hTypes : ∀ type ∈ callable.types, (type.normalize true).Supported) :
    Fit .standard callable ↔ decl.fields ≠ [] := by
  obtain ⟨params, _, rfl⟩ := TypeDecl.build_ok hBuild
  rw [Extractor.fit_standard_iff rfl]
  constructor
  · intro h hNone
    rw [Callable.callSignature?, if_pos hNone] at h
    cases h.1
  · intro hSome
    refine ⟨?_, Hints.isSome_ofCallable rfl hDoc, hTypes⟩
    rw [Callable.callSignature?, if_neg hSome]
    rfl

/-- A function always has a signature, so only its documentation and its types matter. -/
theorem FunctionDecl.fit {decl : FunctionDecl} {names : Entries TypeExpr} {callable : Callable}
    (hBuild : decl.plan.build names = .ok callable)
    (hDoc : ∀ text ∈ decl.doc, (Documentation.read text).isSome = true)
    (hTypes : ∀ type ∈ callable.types, (type.normalize true).Supported) :
    Fit .standard callable := by
  obtain ⟨params, returns, _, _, rfl⟩ := FunctionDecl.build_ok hBuild
  exact (Extractor.fit_standard_iff rfl).mpr ⟨rfl, Hints.isSome_ofCallable rfl hDoc, hTypes⟩

namespace Manifest

variable {file : ManifestFile} {manifest : Manifest}

/-- The name of the class means the class. -/
def Meant (manifest : Manifest) (ref : ClassRef) : Prop :=
  manifest.names.get? ref.name = some (.classRef ref)

/-- A class that is meant is a built-in one or a declared one. -/
theorem Complete.known_of_meant (h : Complete file manifest) {ref : ClassRef}
    (hRef : manifest.Meant ref) : ∃ callable, manifest.catalog.get? ref.index = some callable ∧
      ((∃ kind, callable = .temporal kind) ∨ manifest.callable? ref.name = some callable) ∧
      ∀ older, callable.Asks older → manifest.Meant older ∧ older.index < ref.index := by
  by_cases hKey : ref.name ∈ (entriesOf file).keys
  · obtain ⟨named, hNamed⟩ := Option.isSome_iff_exists.mp ((Entries.get?_isSome_iff _ _).mpr hKey)
    cases h.means hNamed with
    | named _ _ hName => cases hRef.symm.trans hName
    | record _ _ hName _ hCallable hEntry hOlder =>
        cases hRef.symm.trans hName
        refine ⟨_, hEntry, .inr (callable?_eq_some_iff.mpr ⟨ref, hCallable, hEntry⟩), ?_⟩
        intro older hAsks
        obtain ⟨_, hBefore, hMeant⟩ := hOlder.of_asks (fun _ _ hPlaced => hPlaced.1) hAsks
        exact ⟨hMeant, hBefore⟩
  · rw [Meant, h.other hKey] at hRef
    obtain ⟨_, kind, he, _, hEntry, _⟩ := builtin_class hRef
    cases he
    exact ⟨_, h.builtin hEntry, .inl ⟨kind, rfl⟩,
      fun older hAsks => absurd hAsks (Callable.not_asks_of_no_types rfl older)⟩

/-- Every class is declared, and its declaration asks for older ones only. -/
theorem Complete.grounded (h : Complete file manifest) :
    manifest.catalog.Grounded manifest.Meant := by
  intro ref hRef
  obtain ⟨callable, hEntry, _, hOlder⟩ := h.known_of_meant hRef
  exact ⟨callable, hEntry, hOlder⟩

section

variable (h : resolve file = .ok manifest) {name : String} {callable : Callable}
  (hCallable : manifest.callable? name = some callable)

include h hCallable

/-- The classes that a declaration asks for are classes of the manifest. -/
theorem meant_of_asks {ref : ClassRef} (hAsks : callable.Asks ref) : manifest.Meant ref := by
  have hPlaced {bound : Nat}
      (hRelated : callable.Related (Matches (Placed manifest bound)) callable) :
      manifest.Meant ref := (hRelated.of_asks (fun _ _ hPlaced => hPlaced.1) hAsks).2.2
  rcases declared_of_callable? h hCallable with ⟨decl, hm, rfl, _⟩ | ⟨decl, _, _, hBuild⟩
  · have hComplete := complete_of_resolve h
    obtain ⟨ref', hRef', hEntry'⟩ := callable?_eq_some_iff.mp hCallable
    cases hComplete.means (hComplete.type_entry hm) with
    | record _ _ _ _ hRef hEntry hOlder =>
        cases hRef'.symm.trans hRef
        cases hEntry'.symm.trans hEntry
        exact hPlaced hOlder
  · exact hPlaced (self_related_of_build (fun _ _ => classes_of_resolve h)
      (decl.start_related _) hBuild)

/-- Extraction stays among the built-in classes and the declarations of the manifest. -/
theorem reached_cases {extractor : Extractor} {other : Callable}
    (hReaches : Reaches extractor manifest.catalog callable other) :
    (∃ kind, other = .temporal kind) ∨ ∃ name, manifest.callable? name = some other := by
  induction hReaches with
  | refl => exact .inr ⟨name, hCallable⟩
  | tail _ hStep ih =>
      obtain ⟨_, ref, hAsks, hEntry⟩ := hStep
      rcases ih with ⟨kind, rfl⟩ | ⟨name, hDeclared⟩
      · exact absurd hAsks (Callable.not_asks_of_no_types rfl ref)
      · obtain ⟨other, hOther, hKnown, _⟩ :=
          (complete_of_resolve h).known_of_meant (meant_of_asks h hDeclared hAsks)
        cases hEntry.symm.trans hOther
        exact hKnown.imp_right fun hDeclared => ⟨ref.name, hDeclared⟩

end

/-- The documentation of every declaration can be read. -/
structure Readable (file : ManifestFile) : Prop where
  types : ∀ decl ∈ file.types, ∀ text ∈ decl.doc, (Documentation.read text).isSome = true
  functions : ∀ decl ∈ file.functions, ∀ text ∈ decl.doc, (Documentation.read text).isSome = true

/-- Every name that a resolved file declares stands for a callable. If all types that the
callable reaches have a supported form, it has a schema exactly if no record class that
it reaches, itself among them, is declared without fields. -/
theorem extract_iff_reached_have_fields (hResolve : resolve file = .ok manifest)
    (hReadable : Readable file) {name : String}
    (hName : name ∈ file.types.map (·.name) ++ file.functions.map (·.name)) :
    ∃ callable, manifest.callable? name = some callable ∧
      ((∀ other, Reaches .standard manifest.catalog callable other →
          ∀ type ∈ other.types, (type.normalize true).Supported) →
        ((∃ schema, Extractor.standard.extract manifest.catalog callable = .ok schema) ↔
          ∀ decl ∈ file.types, ∀ record, manifest.callable? decl.name = some record →
            Reaches .standard manifest.catalog callable record → decl.fields ≠ [])) := by
  have hComplete := complete_of_resolve hResolve
  obtain ⟨callable, hCallable⟩ : ∃ callable, manifest.callable? name = some callable := by
    rcases List.mem_append.mp hName with hm | hm
    · obtain ⟨decl, hDecl, rfl⟩ := List.mem_map.mp hm
      obtain ⟨_, callable, _, hCallable⟩ := hComplete.record_built hDecl
      exact ⟨callable, hCallable⟩
    · obtain ⟨decl, hDecl, rfl⟩ := List.mem_map.mp hm
      obtain ⟨callable, _, hCallable⟩ := hComplete.functions hDecl
      exact ⟨callable, hCallable⟩
  refine ⟨callable, hCallable, fun hSupported => ?_⟩
  rw [Extractor.exists_extract_iff hComplete.grounded fun ref =>
    meant_of_asks hResolve hCallable]
  constructor
  · intro hFit decl hm record hRecord hReaches
    obtain ⟨known, built, hBuild, hBuilt⟩ := hComplete.record_built hm
    cases hRecord.symm.trans hBuilt
    exact (decl.fit_iff hBuild (hReadable.types decl hm) (hSupported record hReaches)).mp
      (hFit record hReaches)
  · intro hFields other hReaches
    rcases reached_cases hResolve hCallable hReaches with ⟨kind, rfl⟩ | ⟨name, hDeclared⟩
    · exact .inl ⟨_, rfl⟩
    · have hTypes := hSupported other hReaches
      rcases declared_of_callable? hResolve hDeclared with
        ⟨decl, hm, rfl, known, hBuild⟩ | ⟨decl, hm, rfl, hBuild⟩
      · exact (decl.fit_iff hBuild (hReadable.types decl hm) hTypes).mpr
          (hFields decl hm other hDeclared hReaches)
      · exact decl.fit hBuild (hReadable.functions decl hm) hTypes

/-- A class without fields does no harm where it is not reached. -/
theorem extracted_beside_class_without_fields :
    let point : TypeDecl := ⟨"P", none, [⟨"x", some "int", none, .positionalOrKeyword⟩]⟩
    let f : FunctionDecl := ⟨"f", none, [⟨"p", some "P", none, .positionalOrKeyword⟩], none⟩
    let file : ManifestFile := ⟨[], [point, ⟨"E", none, []⟩], [f]⟩
    ∃ manifest callable schema, resolve file = .ok manifest ∧
      manifest.callable? "f" = some callable ∧
        Extractor.standard.extract manifest.catalog callable = .ok schema := by
  intro point f file
  have hView : ((resolve file).toOption.bind fun manifest => (manifest.callable? "f").bind fun f =>
      (manifest.callable? "E").bind fun e => (manifest.catalog.get? 4).map fun p =>
        (f.types, p.types, [f.name, p.name, e.name])) =
      some ([.classRef ⟨"P", 4⟩], [.int], ["f", "P", "E"]) := by cbv
  obtain ⟨manifest, hResolve, hView⟩ := Option.bind_eq_some_iff.mp hView
  obtain ⟨callable, hCallable, hView⟩ := Option.bind_eq_some_iff.mp hView
  obtain ⟨empty, hEmpty, hView⟩ := Option.bind_eq_some_iff.mp hView
  obtain ⟨record, hRecord, hView⟩ := Option.map_eq_some_iff.mp hView
  rw [toOption_eq_some_iff] at hResolve
  simp only [Prod.mk.injEq, List.cons.injEq] at hView
  obtain ⟨hTypes, hFields, hName, hRecordName, hEmptyName, -⟩ := hView
  have hReached : ∀ other, Reaches .standard manifest.catalog callable other →
      other = callable ∨ other = record := by
    refine Extractor.forall_reaches_iff.mpr ⟨.inl rfl, fun next hStep => ?_⟩
    obtain ⟨_, ref, ⟨type, hm, hRef⟩, hNext⟩ := hStep
    rw [hTypes] at hm
    cases List.mem_singleton.mp hm
    cases hRef
    cases hNext.symm.trans hRecord
    refine Extractor.forall_reaches_iff.mpr ⟨.inr rfl, fun next hStep => ?_⟩
    obtain ⟨_, ref, ⟨type, hm, hRef⟩, _⟩ := hStep
    rw [hFields] at hm
    cases List.mem_singleton.mp hm
    cases hRef
  have hSupported : ∀ other, Reaches .standard manifest.catalog callable other →
      ∀ type ∈ other.types, (type.normalize true).Supported := by
    intro other hReaches type hm
    rcases hReached other hReaches with rfl | rfl
    · rw [hTypes] at hm
      cases List.mem_singleton.mp hm
      exact .classRef _
    · rw [hFields] at hm
      cases List.mem_singleton.mp hm
      exact .int
  have hHaveFields : ∀ decl ∈ file.types, ∀ other, manifest.callable? decl.name = some other →
      Reaches .standard manifest.catalog callable other → decl.fields ≠ [] := by
    intro decl hm other hOther hReaches
    rcases List.mem_pair.mp hm with rfl | rfl
    · exact List.cons_ne_nil _ _
    · cases hEmpty.symm.trans hOther
      rcases hReached empty hReaches with rfl | rfl
      · exact absurd (hName.symm.trans hEmptyName) (by decide)
      · exact absurd (hRecordName.symm.trans hEmptyName) (by decide)
  obtain ⟨callable', hCallable', hIff⟩ := @extract_iff_reached_have_fields file manifest hResolve
    ⟨by decide, by decide⟩ "f" (by decide)
  cases hCallable.symm.trans hCallable'
  obtain ⟨schema, hSchema⟩ := (hIff hSupported).mpr hHaveFields
  exact ⟨manifest, callable, schema, hResolve, hCallable, hSchema⟩

/-- A record class without fields resolves, but it has no schema, although it has no
types that could be in the way. -/
theorem class_without_fields_not_extracted :
    ¬ ∀ (file : ManifestFile) (manifest : Manifest), resolve file = .ok manifest → Readable file →
      ∀ name ∈ file.types.map (·.name) ++ file.functions.map (·.name),
        ∃ callable, manifest.callable? name = some callable ∧
          ((∀ other, Reaches .standard manifest.catalog callable other →
              ∀ type ∈ other.types, (type.normalize true).Supported) →
            ∃ schema, Extractor.standard.extract manifest.catalog callable = .ok schema) := by
  intro h
  have hView : ((resolve ⟨[], [⟨"E", none, []⟩], []⟩).toOption.bind fun manifest =>
      (manifest.callable? "E").map fun e =>
        (e.types, (Extractor.standard.extract manifest.catalog e).isOk)) =
      some ([], false) := by cbv
  obtain ⟨manifest, hResolve, hView⟩ := Option.bind_eq_some_iff.mp hView
  obtain ⟨callable, hCallable, hView⟩ := Option.map_eq_some_iff.mp hView
  obtain ⟨hTypes, hFails⟩ := Prod.mk.inj hView
  obtain ⟨callable', hCallable', hExtracts⟩ :=
    h _ manifest (toOption_eq_some_iff.mp hResolve) ⟨by decide, by decide⟩ "E" (by decide)
  cases hCallable.symm.trans hCallable'
  have hSupported : ∀ other, Reaches .standard manifest.catalog callable other →
      ∀ type ∈ other.types, (type.normalize true).Supported := by
    refine Extractor.forall_reaches_iff.mpr ⟨fun type hm => ?_, fun next hStep => ?_⟩
    · rw [hTypes] at hm
      cases hm
    · obtain ⟨_, ref, hAsks, _⟩ := hStep
      exact absurd hAsks (Callable.not_asks_of_no_types hTypes ref)
  obtain ⟨schema, hSchema⟩ := hExtracts hSupported
  rw [hSchema] at hFails
  cases hFails

end Manifest

end ToolSchema
