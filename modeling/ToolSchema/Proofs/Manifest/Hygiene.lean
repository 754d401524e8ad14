import ToolSchema.Proofs.Extraction.Support
import ToolSchema.Proofs.Manifest.Names

/-! The names of a manifest and the words of the notation do not get in each other's
way. What is read without the manifest is read in the same way with it, and a
declared name is read as its own declaration, also behind a known module. -/
namespace ToolSchema.Manifest

open Except
open TypeExpr (Matches Names NamesClass knownModules)
open TypeExpr.Grammar

/-! More names -/

/-- The names keep their meanings among more names, of which none has a module in front
of it. -/
structure Widens (names names' : Names) : Prop where
  keeps {path : String} {t : TypeExpr} (h : names path = some t) : names' path = some t
  identifier {path : String} {t : TypeExpr} (h : names' path = some t) : isIdentifier path = true

section

variable {names names' : Names}

theorem Widens.eq_none (h : Widens names names') {module : String} (hModule : module ∈ modules)
    (word : String) : names' (module ++ word) = none := by
  rw [Option.eq_none_iff_forall_ne_some]
  intro t hPath
  exact ne_module_of_identifier (h.identifier hPath) hModule word rfl

/-- A path that means something keeps its meaning: its word cannot be taken away by a longer
name. -/
theorem Widens.namePath (h : Widens names names') {path : String} {t : TypeExpr}
    (hName : NamePath names path t) : NamePath names' path t := by
  cases hName with
  | path hWord hOther hPath => exact .path hWord hOther (h.keeps hPath)
  | word hWord hOther hPath hFound =>
      -- The whole path is looked up first, so it must not have become a name.
      have hNone : names' path = none := by
        cases hWord with
        | qualified hModule _ => exact h.eq_none hModule _
        | plain _ => cases hPath.symm.trans hFound
      exact .word hWord hOther hNone (h.keeps hFound)

/-- The rules of the grammar hold among the wider names as well. -/
theorem Widens.closed (h : Widens names names') :
    Closed tokens names (Choice tokens names') (Primary tokens names') where
  single := .single
  several := .several
  ellipsis := .ellipsis
  group := .group
  literal := .literal
  tagged := .tagged
  optional := .optional
  union := .union
  scalar := .scalar
  bare := .bare
  generic := .generic
  name hPath hName := .name hPath (h.namePath hName)

/-- What is read among fewer names is read in the same way among more. -/
theorem Widens.parse (h : Widens names names') {text : String} {t : TypeExpr}
    (hParse : TypeExpr.parse names text = .ok t) : TypeExpr.parse names' text = .ok t := by
  obtain ⟨rest, hChoice, hEnd⟩ := derives_of_parse hParse
  exact parse_of_derives ⟨rest, h.closed.choice_of hChoice, hEnd⟩

end

theorem parseOption_widen {names names' : Entries TypeExpr}
    (h : Widens (lookup names) (lookup names')) {text : Option String} {type : Option TypeExpr}
    (hParse : parseOption names text = .ok type) : parseOption names' text = .ok type := by
  rw [Plan.parseOption_eq_ok_iff] at hParse ⊢
  cases hParse with
  | none => exact .none
  | some hText => exact .some (h.parse hText)

/-- The same callable is built among more names. -/
theorem build_widen {names names' : Entries TypeExpr} (h : Widens (lookup names) (lookup names'))
    {plan : Plan} {callable : Callable} (hBuild : plan.build names = .ok callable) :
    plan.build names' = .ok callable := by
  obtain ⟨params, returns, hParams, hReturns, hChecked⟩ := Plan.build_eq_ok_iff.mp hBuild
  refine Plan.build_eq_ok_iff.mpr ⟨params, returns, ?_, parseOption_widen h hReturns, hChecked⟩
  refine hParams.imp fun decl param hParam => ?_
  obtain ⟨type, hType, rfl⟩ := Plan.paramOf_eq_ok_iff.mp hParam
  exact Plan.paramOf_eq_ok_iff.mpr ⟨type, parseOption_widen h hType, rfl⟩

/-! Stages -/

section

variable {file : ManifestFile} {manifest : Manifest}

/-- Everything is resolved at some stage, and the manifest keeps what there was before
and after it. -/
theorem stage_of_addNames {order : List String} (hDeclarable : Declarable (entriesOf file).keys)
    (hReady : ReadyOrder (graphOf (entriesOf file)) order)
    (hKeys : ∀ name ∈ order, name ∈ (entriesOf file).keys)
    (h : addNames (entriesOf file) empty order = .ok manifest) {name : String}
    (hName : name ∈ order) : ∃ named earlier later, (entriesOf file).get? name = some named ∧
      addNamed earlier name named = .ok later ∧ Extends earlier manifest ∧
        Extends later manifest := by
  induction hReady generalizing manifest with
  | nil => cases hName
  | @snoc order last hReady hNew _ ih =>
      rw [List.forall_mem_append] at hKeys
      rw [addNames_eq_foldlM, List.foldlM_append] at h
      obtain ⟨mid, hFront, h⟩ := bind_eq_ok_iff.mp h
      obtain ⟨_, hAdd, hPure⟩ := bind_eq_ok_iff.mp h
      cases hPure
      rw [addName] at hAdd
      split at hAdd
      · next named hNamed =>
        have hExtends : Extends mid manifest :=
          (resolved_of_addNames hDeclarable hReady hKeys.1 hFront).extends hDeclarable hNew hNamed
            hAdd
        rcases List.mem_append.mp hName with hm | hm
        · obtain ⟨other, earlier, later, hOther, hStage, hEarlier, hLater⟩ := ih hKeys.1 hFront hm
          exact ⟨other, earlier, later, hOther, hStage, hEarlier.trans hExtends,
            hLater.trans hExtends⟩
        · cases List.mem_singleton.mp hm
          exact ⟨named, mid, manifest, hNamed, hAdd, hExtends, .refl manifest⟩
      · next hNone =>
        exact absurd (hKeys.2 last (.head _)) ((Entries.get?_eq_none_iff _ _).mp hNone)

/-- Every name was added at some stage, and the manifest extends that stage. -/
theorem stage_of_resolve (h : resolve file = .ok manifest) {name : String} {named : Named}
    (hNamed : (entriesOf file).get? name = some named) : ∃ earlier later,
      addNamed earlier name named = .ok later ∧ Extends earlier manifest ∧
        Extends later manifest := by
  obtain ⟨order, mid, hDeclarable, hReady, hMem, hMid, _, hAdded⟩ := stages_of_resolve h
  have hName : name ∈ order := (hMem name).mpr (Entries.mem_keys (Entries.mem_of_get? hNamed))
  obtain ⟨named', earlier, later, hNamed', hStage, hEarlier, hLater⟩ :=
    stage_of_addNames hDeclarable hReady (fun name => (hMem name).mp) hMid hName
  cases hNamed.symm.trans hNamed'
  exact ⟨earlier, later, hStage, hEarlier.trans hAdded.grown, hLater.trans hAdded.grown⟩

/-- Later names widen earlier ones, so what was read then is read the same way now. -/
theorem Extends.widens (h : resolve file = .ok manifest) {earlier : Manifest}
    (hExtends : Extends earlier manifest) : Widens (lookup earlier.names) (lookup manifest.names) :=
  ⟨fun hName => hExtends.names hName, fun hName => (identifier_of_resolve h hName).1⟩

/-- All names of a manifest widen those that are built in. -/
theorem widens_builtinNames (h : resolve file = .ok manifest) :
    Widens (lookup Catalog.builtinNames) (lookup manifest.names) := by
  have hComplete := complete_of_resolve h
  refine ⟨fun {name t} hName => ?_, fun hName => (identifier_of_resolve h hName).1⟩
  rw [lookup, hComplete.other fun hDeclared => ?_]
  · exact hName
  · cases hName.symm.trans (hComplete.declarable.not_builtin hDeclared)

/-! Spellings -/

/-- The ways to write a declared name: by itself, or behind a known module. -/
def spellings (name : String) : List String := name :: knownModules.map (· ++ name)

/-- A name behind a known module is one path. -/
theorem path_of_qualified {name : String} (h : isIdentifier name = true) {module : String}
    (hModule : module ∈ modules) : Spaced Name (module ++ name).toList (module ++ name) [] := by
  have hName := name_of_identifier h
  have hChars : ∀ module ∈ modules, ∀ c ∈ module.toList, isNamePart c = true ∨ c = '.' := by
    simp [modules, isNamePart]
  have hStart : ∀ module ∈ modules, module.toList.head?.any isNamePart = true := by decide
  obtain ⟨c, hFirst, hPart⟩ := (Option.any_eq_true _ _).mp (hStart module hModule)
  obtain ⟨more, hMore⟩ := List.head?_eq_some_iff.mp hFirst
  have hText : (module ++ name).toList = c :: (more ++ name.toList) := by
    rw [String.toList_append, hMore, List.cons_append]
  refine ⟨_, skips_iff.mpr (List.dropWhile_eq_self_iff.mpr fun hText => ?_), ?_, ?_, ?_, ?_⟩
  · simp only [String.toList_append, hMore, List.cons_append, List.getElem_cons_zero]
    exact fun hBlank => Bool.false_ne_true ((not_isNamePart_of_isBlank hBlank).symm.trans hPart)
  · refine ⟨(List.append_nil _).symm, fun c hc => ?_, by simp⟩
    rw [String.toList_append, List.mem_append] at hc
    rcases hc with hc | hc
    · exact (hChars module hModule c hc).elim isNameChar_of_isNamePart fun he => .inr (.inr he)
    · exact hName.run.inside c hc
  · rw [hText]
    exact List.cons_ne_nil _ _
  · rw [hText]
    rintro ⟨⟩
    cases hPart
  · rw [String.toList_append, List.getLast?_append_of_ne_nil _ hName.nonempty]
    exact hName.last

/-- A declared name is read as what it means, however it is spelled. -/
theorem parse_spelling (h : resolve file = .ok manifest) {name : String} {t : TypeExpr}
    (hName : manifest.names.get? name = some t) {path : String} (hPath : path ∈ spellings name) :
    manifest.parse path = .ok t := by
  rw [parse, Plan.parseIn_eq_ok_iff]
  rcases List.mem_cons.mp hPath with rfl | hm
  · exact parse_name h hName
  · obtain ⟨module, hModule, rfl⟩ := List.mem_map.mp hm
    obtain ⟨hIdentifier, hOther⟩ := identifier_of_resolve h hName
    have hNone : lookup manifest.names (module ++ name) = none :=
      (Extends.refl manifest).widens h |>.eq_none hModule name
    have hDot : '.' ∉ name.toList := by
      simp only [isIdentifier, Bool.and_eq_true, List.all_eq_true] at hIdentifier
      exact fun hm => absurd (hIdentifier.2 '.' hm) (by decide)
    exact parse_of_derives ⟨[], .single (.name (path_of_qualified hIdentifier hModule)
      (.word (.qualified hModule hDot) hOther hNone hName)), skips_iff.mpr rfl⟩

/-! Hygiene -/

/-- What is read without the manifest is read in the same way with it, and the classes
in it are the same. -/
theorem parse_of_parseBuiltin (h : resolve file = .ok manifest) {text : String} {t : TypeExpr}
    (hParse : TypeExpr.parseBuiltin text = .ok t) : manifest.parse text = .ok t ∧
      ∀ ref, t.NamesClass ref → ∃ kind, Catalog.builtin.get? ref.index = some (.temporal kind) ∧
        manifest.catalog.get? ref.index = some (.temporal kind) := by
  rw [TypeExpr.parseBuiltin, Plan.parseIn_eq_ok_iff] at hParse
  refine ⟨Plan.parseIn_eq_ok_iff.mpr ((widens_builtinNames h).parse hParse), fun ref hRef => ?_⟩
  let IsTemporal (a b : ClassRef) : Prop :=
    ∃ kind, Catalog.builtin.get? a.index = some (.temporal kind)
  have hNames (name : String) (t : TypeExpr) (hName : Catalog.builtinNames.get? name = some t) :
      Matches IsTemporal t t := by
    obtain ⟨ref, kind, rfl, _, hEntry, _⟩ := builtin_class hName
    exact .classRef ⟨kind, hEntry⟩
  obtain ⟨kind, hEntry⟩ := (self_matches_of_parse hNames hParse).of_namesClass hRef
  exact ⟨kind, hEntry, (complete_of_resolve h).builtin hEntry⟩

/-- An alias is read as its own name for what its text is read as. -/
theorem parse_alias (h : resolve file = .ok manifest) {name text : String}
    (hm : (name, text) ∈ file.aliases) : ∃ target, manifest.parse text = .ok target ∧
      ∀ path ∈ spellings name, manifest.parse path = .ok (.alias name target) := by
  have hNamed : (entriesOf file).get? name = some (.alias text) :=
    (Entries.get?_eq_some_iff (complete_of_resolve h).declarable.distinct _ _).mpr
      (List.mem_append_left _ (List.mem_map.mpr ⟨_, hm, rfl⟩))
  obtain ⟨earlier, later, hStage, hEarlier, hLater⟩ := stage_of_resolve h hNamed
  obtain ⟨target, hParse, rfl⟩ := addNamed_alias_eq_ok_iff.mp hStage
  refine ⟨target, Plan.parseIn_eq_ok_iff.mpr ((hEarlier.widens h).parse hParse), fun _ hPath => ?_⟩
  exact parse_spelling h (hLater.names (by rw [Entries.get?_insert, if_pos rfl])) hPath

/-- A record class is read as the class that its declaration is built to. -/
theorem parse_type (h : resolve file = .ok manifest) {decl : TypeDecl} (hm : decl ∈ file.types) :
    ∃ ref callable, ref.name = decl.name ∧ decl.plan.build manifest.names = .ok callable ∧
      manifest.catalog.get? ref.index = some callable ∧
      manifest.callable? decl.name = some callable ∧
      ∀ path ∈ spellings decl.name, manifest.parse path = .ok (.classRef ref) := by
  have hNamed := (complete_of_resolve h).type_entry hm
  obtain ⟨earlier, later, hStage, hEarlier, hLater⟩ := stage_of_resolve h hNamed
  obtain ⟨callable, hBuild, rfl⟩ := addNamed_type_eq_ok_iff.mp hStage
  have hSame : callable.name = decl.name := Plan.name_of_build hBuild
  have hEntry := hLater.catalog (if_pos rfl)
  have hRef := hLater.callables (by rw [register, Entries.get?_insert, if_pos hSame])
  refine ⟨⟨callable.name, _⟩, callable, hSame, build_widen (hEarlier.widens h) hBuild, hEntry,
    callable?_eq_some_iff.mpr ⟨_, hRef, hEntry⟩, fun _ hPath => ?_⟩
  exact parse_spelling h (hLater.names (by rw [Entries.get?_insert, if_pos rfl]; rfl)) hPath

/-- The names of a manifest do not capture the words of the notation and are not
captured by them: built-in types are read as they are without the manifest, and a
declared name is read as its own declaration. -/
theorem resolve_hygienic (h : resolve file = .ok manifest) :
    (∀ text t, TypeExpr.parseBuiltin text = .ok t → manifest.parse text = .ok t ∧
      ∀ ref, t.NamesClass ref → ∃ kind, Catalog.builtin.get? ref.index = some (.temporal kind) ∧
        manifest.catalog.get? ref.index = some (.temporal kind)) ∧
    (∀ name text, (name, text) ∈ file.aliases → ∃ target, manifest.parse text = .ok target ∧
      ∀ path ∈ spellings name, manifest.parse path = .ok (.alias name target)) ∧
    ∀ decl ∈ file.types, ∃ ref callable, ref.name = decl.name ∧
      decl.plan.build manifest.names = .ok callable ∧
      manifest.catalog.get? ref.index = some callable ∧
      manifest.callable? decl.name = some callable ∧
      ∀ path ∈ spellings decl.name, manifest.parse path = .ok (.classRef ref) :=
  ⟨fun _ _ hParse => parse_of_parseBuiltin h hParse, fun _ _ hm => parse_alias h hm,
    fun _ hm => parse_type h hm⟩

end

/-- An alias of a declared class, both read with a module in front of them, next to a built-in
class. -/
theorem alias_hygienic :
    let p : TypeDecl := ⟨"P", none, [⟨"x", some "int", none, .positionalOrKeyword⟩]⟩
    let file : ManifestFile := ⟨[("A", "typing.P")], [p], []⟩
    let dates : TypeExpr := .generic .list [.classRef ⟨"date", 0⟩]
    ∃ manifest ref target, resolve file = .ok manifest ∧
      TypeExpr.parseBuiltin "list[date]" = .ok dates ∧ manifest.parse "list[date]" = .ok dates ∧
      manifest.parse "typing.P" = .ok target ∧ target = .classRef ref ∧
      manifest.parse "typing.A" = .ok (.alias "A" target) := by
  intro p file dates
  have hResolves : (resolve file).toOption.isSome = true := by cbv
  obtain ⟨manifest, hResolve⟩ := Option.isSome_iff_exists.mp hResolves
  rw [toOption_eq_some_iff] at hResolve
  have hDates : TypeExpr.parseBuiltin "list[date]" = .ok dates := by cbv
  obtain ⟨hBuiltin, hAlias, hType⟩ := resolve_hygienic hResolve
  obtain ⟨target, hTarget, hPath⟩ := hAlias "A" "typing.P" (.head _)
  obtain ⟨ref, _, _, _, _, _, hClass⟩ := hType p (.head _)
  have hSame := hTarget.symm.trans (hClass "typing.P" (by decide))
  exact ⟨manifest, ref, target, hResolve, hDates, (hBuiltin _ _ hDates).1, hTarget,
    Except.ok.inj hSame, hPath _ (by decide)⟩

end ToolSchema.Manifest
