import ToolSchema.Proofs.Manifest.Resolved
import ToolSchema.Proofs.TypeExpr.Legible

/-! Types that are read among the names of a manifest. Nothing in them is empty,
and they name only classes that are found by their names, so their legible normal
forms are read back. -/
namespace ToolSchema.Manifest

open Except
open TypeExpr (Filled FoundByName Legible Matches)
open TypeExpr.Grammar (BuiltIn scalars)

/-! Nothing is empty -/

/-- Nothing is empty in what is put together from parts in which nothing is empty. -/
theorem filled_hereditary : IsHereditary Filled where
  scalar h := by
    have hTable : ∀ entry ∈ scalars, Filled entry.2 := by
      simp only [scalars, List.forall_mem_cons]
      exact ⟨.any, .null, .null, .int, .float, .str, .bool, List.forall_mem_nil _⟩
    exact hTable _ h
  ellipsis := .ellipsis
  literal := .literal
  tagged h tags := .tagged tags h
  union := .union
  generic origin h := .generic origin h

section

variable {file : ManifestFile} {manifest manifest' : Manifest}

/-- An alias stands for a type that was read, and a class has no parts. -/
theorem filled_of_addNamed {name : String} {named : Named}
    (hAdd : addNamed manifest name named = .ok manifest')
    (hNames : ∀ other t, manifest.names.get? other = some t → t.Filled) (other : String)
    (t : TypeExpr) (h : manifest'.names.get? other = some t) : t.Filled := by
  have hInsert {meaning : TypeExpr} (hMeaning : meaning.Filled)
      (h : (manifest.names.insert name meaning).get? other = some t) : t.Filled := by
    rw [Entries.get?_insert] at h
    split at h
    · cases h
      exact hMeaning
    · exact hNames other t h
  match named, hAdd with
  | .alias text, hAdd =>
      obtain ⟨target, hParse, rfl⟩ := addNamed_alias_eq_ok_iff.mp hAdd
      exact hInsert (.named name (parse_hereditary filled_hereditary hNames hParse)) h
  | .type decl, hAdd =>
      obtain ⟨callable, _, rfl⟩ := addNamed_type_eq_ok_iff.mp hAdd
      exact hInsert (.classRef _) h

/-- By induction on the order of the names. -/
theorem filled_of_addNames {declared : Entries Named} {order : List String}
    (h : addNames declared manifest order = .ok manifest')
    (hNames : ∀ name t, manifest.names.get? name = some t → t.Filled) :
    ∀ name t, manifest'.names.get? name = some t → t.Filled := by
  refine @foldlM_invariant _ _ _ (addName declared)
    (fun state => ∀ name t, state.names.get? name = some t → t.Filled)
    (fun state name state' hState hStep => ?_) _ _ _ hNames h
  rw [addName] at hStep
  split at hStep
  · exact filled_of_addNamed hStep hState
  · cases hStep
    exact hState

/-- What a name of a manifest means is nowhere empty. -/
theorem filled_of_resolve (h : resolve file = .ok manifest) {name : String} {t : TypeExpr}
    (hName : manifest.names.get? name = some t) : t.Filled := by
  rw [resolve] at h
  obtain ⟨declared, _, h⟩ := bind_eq_ok_iff.mp h
  obtain ⟨order, _, h⟩ := bind_eq_ok_iff.mp h
  obtain ⟨mid, hMid, hFunctions⟩ := bind_eq_ok_iff.mp h
  rw [names_of_addFunctions hFunctions] at hName
  refine filled_of_addNames (mapError_eq_ok_iff.mp hMid) (fun other t h => ?_) name t hName
  obtain ⟨ref, _, rfl, _⟩ := builtin_class h
  exact .classRef ref

/-! Classes -/

/-- The built-in names for dates and times are identifiers, but not words of the notation. -/
theorem builtinNames_other : ∀ entry ∈ Catalog.builtinNames,
    isIdentifier entry.1 = true ∧ ¬ BuiltIn entry.1 := by
  unfold BuiltIn
  decide

/-- The names of a manifest are no words of the notation. -/
theorem identifier_of_resolve (h : resolve file = .ok manifest) {name : String} {t : TypeExpr}
    (hName : manifest.names.get? name = some t) : isIdentifier name = true ∧ ¬ BuiltIn name := by
  have hComplete := complete_of_resolve h
  by_cases hDeclared : name ∈ (entriesOf file).keys
  · refine ⟨hComplete.declarable.identifier hDeclared, fun hBuiltIn => ?_⟩
    have hFree := hComplete.declarable.free hDeclared
    rw [isBuiltin_of_builtIn hBuiltIn] at hFree
    cases hFree
  · rw [hComplete.other hDeclared] at hName
    exact builtinNames_other _ (Entries.mem_of_get? hName)

/-- What has a meaning in a manifest can be read. -/
theorem parse_name (h : resolve file = .ok manifest) {name : String} {t : TypeExpr}
    (hName : manifest.names.get? name = some t) :
    TypeExpr.parse (lookup manifest.names) name = .ok t := by
  obtain ⟨hIdentifier, hOther⟩ := identifier_of_resolve h hName
  exact parse_identifier hIdentifier hOther hName

/-- All classes in a type that was read are found again by their names. -/
theorem foundByName_of_parse (h : resolve file = .ok manifest) {text : String} {t : TypeExpr}
    (hParse : TypeExpr.parse (lookup manifest.names) text = .ok t) :
    Matches (FoundByName (lookup manifest.names)) t t := by
  have hPlaced := self_matches_of_parse (fun _ _ hName => classes_of_resolve h hName) hParse
  exact hPlaced.chain (fun _ _ _ hFirst hSecond =>
    ⟨hFirst.1.trans hSecond.1, parse_name h hFirst.2.2⟩) hPlaced

/-- A legible normal form of a type that is read is read as itself. -/
theorem parse_normalize (h : resolve file = .ok manifest) {text : String} {t : TypeExpr}
    (hParse : TypeExpr.parse (lookup manifest.names) text = .ok t) {concretize : Bool}
    (hLegible : (t.normalize concretize).Legible) :
    TypeExpr.parse (lookup manifest.names) (t.normalize concretize).text =
      .ok (t.normalize concretize) :=
  TypeExpr.parse_text_normalize
    (parse_hereditary filled_hereditary (fun _ _ hName => filled_of_resolve h hName) hParse)
    (foundByName_of_parse h hParse) hLegible

end

end ToolSchema.Manifest
