import Mathlib
import ToolSchema.Proofs.Manifest.Building
import ToolSchema.Proofs.Manifest.Declarations
import ToolSchema.Proofs.Manifest.Missing

/-! Resolution in the order of references. When a text is read, every declared
name that it asks for has its meaning already. Closed manifests are run here and in
the modules above with equations of library functions that are spread over all of
Mathlib, so it is imported whole. -/
namespace ToolSchema.Manifest

open Except
open TypeExpr (unqualified)

/-! Steps -/

/-- The steps of resolution as equations. An alias is read among the names so far and added under
its own name. -/
theorem addNamed_alias_eq_ok_iff {manifest manifest' : Manifest} {name text : String} :
    addNamed manifest name (.alias text) = .ok manifest' ↔ ∃ target,
      TypeExpr.parse (lookup manifest.names) text = .ok target ∧
        manifest' = { manifest with names := manifest.names.insert name (.alias name target) } := by
  rw [addNamed, bind_eq_ok_iff]
  exact exists_congr fun target =>
    and_congr Plan.parseIn_eq_ok_iff (pure_eq_ok_iff.trans eq_comm)

/-- A record class is built among the names so far, and its class gets the next place in the
catalog. -/
theorem addNamed_type_eq_ok_iff {manifest manifest' : Manifest} {name : String} {decl : TypeDecl} :
    addNamed manifest name (.type decl) = .ok manifest' ↔ ∃ callable,
      decl.plan.build manifest.names = .ok callable ∧
        manifest' = { (manifest.register callable).1 with
          names := manifest.names.insert name (.classRef (manifest.register callable).2) } := by
  rw [addNamed, bind_eq_ok_iff]
  exact exists_congr fun callable => and_congr_right fun _ => pure_eq_ok_iff.trans eq_comm

/-- An alias and a record class each add one name. -/
theorem names_of_addNamed {manifest manifest' : Manifest} {name : String} {named : Named}
    (h : addNamed manifest name named = .ok manifest') :
    ∃ t, manifest'.names = manifest.names.insert name t := by
  match named, h with
  | .alias text, h =>
      obtain ⟨target, _, rfl⟩ := addNamed_alias_eq_ok_iff.mp h
      exact ⟨_, rfl⟩
  | .type decl, h =>
      obtain ⟨callable, _, rfl⟩ := addNamed_type_eq_ok_iff.mp h
      exact ⟨_, rfl⟩

theorem texts_plan (decl : TypeDecl) : decl.plan.texts = (Named.type decl).texts :=
  List.append_nil _

/-- A name fails for a type because one of its texts cannot be read. -/
theorem addNamed_eq_type_error {manifest : Manifest} {name : String} {named : Named}
    {error : TypeError} (h : addNamed manifest name named = .error (.type error)) :
    ∃ text ∈ named.texts, TypeExpr.parse (lookup manifest.names) text = .error error := by
  match named, h with
  | .alias text, h =>
      rw [addNamed] at h
      rcases bind_eq_error_iff.mp h with h | ⟨_, _, h⟩
      · exact ⟨text, .head _, Plan.parseIn_eq_type_error_iff.mp h⟩
      · cases h
  | .type decl, h =>
      rw [addNamed] at h
      rcases bind_eq_error_iff.mp h with h | ⟨_, _, h⟩
      · rw [← texts_plan]
        exact @Plan.build_eq_type_error manifest.names decl.plan error h
      · cases h

/-- A function is built when all names are known. It adds none. -/
theorem addFunction_eq_ok_iff {manifest manifest' : Manifest} {decl : FunctionDecl} :
    addFunction manifest decl = .ok manifest' ↔ decl.name ∉ manifest.callables.keys ∧ ∃ callable,
      decl.plan.build manifest.names = .ok callable ∧
        manifest' = { (manifest.register callable).1 with
          functions := manifest.functions ++ [decl.name] } := by
  rw [addFunction, ← Entries.hasKey_iff]
  by_cases hKey : manifest.callables.hasKey decl.name = true
  · rw [if_pos hKey]
    exact iff_of_false nofun fun h => h.1 hKey
  · rw [if_neg hKey]
    refine Iff.trans ?_ (and_iff_right hKey).symm
    refine bind_eq_ok_iff.trans (exists_congr fun callable => ?_)
    exact and_congr mapError_eq_ok_iff (pure_eq_ok_iff.trans eq_comm)

/-- A function fails for its name, or as building it does. -/
theorem addFunction_eq_core_error {manifest : Manifest} {decl : FunctionDecl} {error : Error}
    (h : addFunction manifest decl = .error (.core error)) :
    decl.plan.build manifest.names = .error error := by
  rw [addFunction] at h
  by_cases hKey : manifest.callables.hasKey decl.name = true
  · rw [if_pos hKey] at h
    cases h
  · rw [if_neg hKey] at h
    rcases bind_eq_error_iff.mp h with h | ⟨_, _, h⟩
    · obtain ⟨_, h, he⟩ := mapError_eq_error_iff.mp h
      cases he
      exact h
    · cases h

/-- Functions leave the names alone. -/
theorem names_of_addFunctions {decls : List FunctionDecl} {manifest manifest' : Manifest}
    (h : decls.foldlM addFunction manifest = .ok manifest') : manifest'.names = manifest.names := by
  induction decls generalizing manifest with
  | nil =>
      cases h
      rfl
  | cons decl decls ih =>
      rw [List.foldlM_cons] at h
      obtain ⟨mid, hFirst, hMore⟩ := bind_eq_ok_iff.mp h
      obtain ⟨_, callable, _, rfl⟩ := addFunction_eq_ok_iff.mp hFirst
      have hNames := ih hMore
      exact hNames

def addName (declared : Entries Named) (manifest : Manifest) (name : String) :
    Except Error Manifest :=
  match declared.get? name with
  | some named => manifest.addNamed name named
  | none => .ok manifest

theorem addNames_eq_foldlM (declared : Entries Named) (manifest : Manifest) (names : List String) :
    addNames declared manifest names = names.foldlM (addName declared) manifest := rfl

/-- Declared names keep their meaning once they have one. -/
theorem known_of_addNames {declared : Entries Named} {names : List String}
    {manifest manifest' : Manifest} (h : addNames declared manifest names = .ok manifest')
    {name : String} (hName : (manifest.names.get? name).isSome = true ∨
      (name ∈ names ∧ name ∈ declared.keys)) : (manifest'.names.get? name).isSome = true := by
  induction names generalizing manifest with
  | nil =>
      cases h
      simpa using hName
  | cons first names ih =>
      rw [addNames_eq_foldlM, List.foldlM_cons] at h
      obtain ⟨mid, hFirst, hMore⟩ := bind_eq_ok_iff.mp h
      apply ih hMore
      rw [addName] at hFirst
      split at hFirst
      · obtain ⟨t, hNames⟩ := names_of_addNamed hFirst
        rw [hNames, Entries.get?_insert]
        by_cases hSame : first = name
        · simp [hSame]
        · rcases hName with hName | ⟨hm, hDeclared⟩
          · simp [hSame, hName]
          · exact .inr ⟨List.mem_of_ne_of_mem (Ne.symm hSame) hm, hDeclared⟩
      · next hNone =>
        cases hFirst
        rcases hName with hName | ⟨hm, hDeclared⟩
        · exact .inl hName
        · refine .inr ⟨List.mem_of_ne_of_mem ?_ hm, hDeclared⟩
          rintro rfl
          exact (Entries.get?_eq_none_iff _ _).mp hNone hDeclared

/-- All texts of types in the aliases and record classes are whole lines. -/
def WholeLines (file : ManifestFile) : Prop :=
  ∀ entry ∈ entriesOf file, ∀ text ∈ entry.2.texts, Unbroken text.toList

/-- What a name refers to has a meaning when its texts are read. -/
theorem addNames_knows_references {declared : Entries Named} {order front back : List String}
    {name : String} {named : Named} {manifest : Manifest}
    (hOrder : resolutionOrder (graphOf declared) = .ok order)
    (hSplit : order = front ++ name :: back)
    (hFront : addNames declared empty front = .ok manifest)
    (hNamed : declared.get? name = some named) {text : String} (hText : text ∈ named.texts)
    {target : String} (hFound : target ∈ words text.toList) (hTarget : target ∈ declared.keys) :
    (manifest.names.get? target).isSome = true := by
  have hReady := (order_of_resolutionOrder hOrder).ready
  rw [hSplit] at hReady
  have hEdge : Edge (graphOf declared) name target :=
    edge_graphOf_iff.mpr ⟨named, hNamed, text, hText, hFound, hTarget⟩
  exact known_of_addNames hFront (.inr ⟨hReady.mem_front hEdge, hTarget⟩)

/-- A word that means something is resolved, with or without a module before it. -/
theorem resolve_isSome {names : TypeExpr.Names} {path : String}
    (h : (names (unqualified path)).isSome = true) :
    TypeExpr.resolve names path ≠ none := by
  intro hNone
  rw [TypeExpr.resolve, Option.or_eq_none_iff] at hNone
  rw [hNone.2] at h
  cases h

/-- No declared name is taken for unknown, whatever the order in which names are
declared. -/
theorem declared_name_not_unknown {file : ManifestFile} (hLines : WholeLines file) {path : String}
    (hDeclared : unqualified path ∈ (entriesOf file).keys) (input : String) (position : Nat) :
    resolve file ≠ .error (.core (.type ⟨input, position, .unknownName path⟩)) := by
  intro h
  rw [resolve] at h
  rcases bind_eq_error_iff.mp h with h | ⟨declared, hNames, h⟩
  · obtain ⟨_, _, h⟩ := mapError_eq_error_iff.mp h
    cases h
  · obtain ⟨rfl, hDeclarable⟩ := declaredNames_eq_ok_iff.mp (mapError_eq_ok_iff.mp hNames)
    rcases bind_eq_error_iff.mp h with h | ⟨order, hOrder, h⟩
    · obtain ⟨_, _, h⟩ := mapError_eq_error_iff.mp h
      cases h
    · rw [mapError_eq_ok_iff] at hOrder
      rcases bind_eq_error_iff.mp h with h | ⟨manifest, hManifest, h⟩
      · obtain ⟨error, h, he⟩ := mapError_eq_error_iff.mp h
        cases he
        obtain ⟨front, name, back, state, hSplit, hFront, h⟩ := exists_of_foldlM_eq_error h
        split at h
        · next named hNamed =>
          obtain ⟨text, hText, h⟩ := addNamed_eq_type_error h
          have hMissing := missing_of_parse h rfl
          have hFound := hMissing.found (hLines _ (Entries.mem_of_get? hNamed) text hText)
            (hDeclarable.identifier hDeclared)
          exact resolve_isSome (addNames_knows_references hOrder hSplit hFront hNamed hText hFound
            hDeclared) hMissing.unknown
        · cases h
      · obtain ⟨front, decl, back, state, _, hFront, h⟩ := exists_of_foldlM_eq_error h
        obtain ⟨text, _, h⟩ := Plan.build_eq_type_error (addFunction_eq_core_error h)
        have hMissing := missing_of_parse h rfl
        rw [names_of_addFunctions hFront] at hMissing
        have hAll := (order_of_resolutionOrder hOrder).visited _ (keys_graphOf _ ▸ hDeclared)
        rw [mapError_eq_ok_iff] at hManifest
        exact resolve_isSome (known_of_addNames hManifest (.inr ⟨hAll, hDeclared⟩))
          hMissing.unknown

/-- A name that is declared later, behind a module, next to strings with the name and an escaped
quote. -/
theorem forward_reference_not_unknown :
    WholeLines ⟨[("A", "list[typing.B] | Literal['B', '\\'']"), ("B", "int | None")], [], []⟩ ∧
      unqualified "typing.B" ∈ ["A", "B"] ∧ ∀ input position,
        resolve ⟨[("A", "list[typing.B] | Literal['B', '\\'']"), ("B", "int | None")], [], []⟩ ≠
          .error (.core (.type ⟨input, position, .unknownName "typing.B"⟩)) := by
  have hLines :
      WholeLines ⟨[("A", "list[typing.B] | Literal['B', '\\'']"), ("B", "int | None")], [], []⟩ :=
    fun entry hEntry text hText => unbroken_of_not_mem
      ((by decide : ∀ entry ∈ [("A", Named.alias "list[typing.B] | Literal['B', '\\'']"),
        ("B", .alias "int | None")], ∀ text ∈ entry.2.texts, '\n' ∉ text.toList)
        entry hEntry text hText)
  exact ⟨hLines, by decide, declared_name_not_unknown hLines (by decide)⟩

/-- A string that goes on behind a backslash at the end of a line hides the
references after it. -/
theorem line_end_hides_reference : ¬ ∀ (file : ManifestFile) (path : String),
    unqualified path ∈ (entriesOf file).keys → ∀ input position,
      resolve file ≠ .error (.core (.type ⟨input, position, .unknownName path⟩)) := by
  intro h
  have hFails : resolve ⟨[("A", "Literal['\\\n'] | B | Literal['y']"), ("B", "int")], [], []⟩ =
      .error (.core (.type ⟨"Literal['\\\n'] | B | Literal['y']", 16, .unknownName "B"⟩)) := by
    cbv
  exact h ⟨[("A", "Literal['\\\n'] | B | Literal['y']"), ("B", "int")], [], []⟩ "B" (by decide)
    _ _ hFails

end ToolSchema.Manifest
