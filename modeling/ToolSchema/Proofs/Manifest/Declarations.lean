import ToolSchema.Manifest.Resolution
import ToolSchema.Proofs.Manifest.Coverage
import ToolSchema.Proofs.Manifest.Order

/-! The names that a manifest declares, and which of them refer to which. -/
namespace ToolSchema.Manifest

open Except (bind_eq_ok_iff pure_eq_ok_iff)
open TypeExpr (unqualified)
open TypeExpr.Grammar

/-! Words -/

/-- An identifier has no dot, so there is no module in front of it. -/
theorem ne_module_of_identifier {name : String} (h : isIdentifier name = true) {module : String}
    (hModule : module ∈ modules) (word : String) : name ≠ module ++ word := by
  intro he
  have hDot : '.' ∈ name.toList := by
    rw [he, String.toList_append]
    simp only [modules, List.mem_cons, List.not_mem_nil, or_false] at hModule
    rcases hModule with rfl | rfl | rfl <;> exact List.mem_append_left _ (by decide)
  simp only [isIdentifier, Bool.and_eq_true, List.all_eq_true] at h
  exact absurd (h.2 '.' hDot) (by decide)

theorem unqualified_identifier {name : String} (h : isIdentifier name = true) :
    unqualified name = name :=
  unqualified_eq_self fun _ hModule word he => absurd he (ne_module_of_identifier h hModule word)

/-- All of an identifier is read as one name. -/
theorem name_of_identifier {name : String} (h : isIdentifier name = true) :
    Name name.toList name [] := by
  have hParts : ∀ c ∈ name.toList, isNamePart c = true := by
    simp only [isIdentifier, Bool.and_eq_true, List.all_eq_true] at h
    exact h.2
  have hDot : '.' ∉ name.toList := fun hm => absurd (hParts '.' hm) (by decide)
  constructor
  · exact ⟨(List.append_nil _).symm, fun c hc => isNameChar_of_isNamePart (hParts c hc), by simp⟩
  · intro hEmpty
    rw [isIdentifier, hEmpty] at h
    cases h
  · exact fun hFirst => hDot (List.mem_of_mem_head? hFirst)
  · exact fun hLast => hDot (List.mem_of_mem_getLast? hLast)

theorem path_of_identifier {name : String} (h : isIdentifier name = true) :
    Spaced Name name.toList name [] := by
  have hName := name_of_identifier h
  obtain ⟨c, more, hText⟩ := List.exists_cons_of_ne_nil hName.nonempty
  have hPart : isNamePart c = true := by
    simp only [isIdentifier, Bool.and_eq_true, List.all_eq_true] at h
    exact h.2 c (by simp [hText])
  have hBlank : ¬ Text.isBlank c = true := by
    intro hBlank
    rw [not_isNamePart_of_isBlank hBlank] at hPart
    cases hPart
  refine ⟨_, skips_iff.mpr ?_, hName⟩
  rw [hText]
  exact List.dropWhile_cons_of_neg hBlank

/-- A name that is not built in is read as what it means. -/
theorem parse_identifier {names : TypeExpr.Names} {name : String} (h : isIdentifier name = true)
    (hOther : ¬ BuiltIn name) {t : TypeExpr} (hName : names name = some t) :
    TypeExpr.parse names name = .ok t :=
  parse_of_derives ⟨[], .single (.name (path_of_identifier h)
    (.path (spells_iff.mpr (unqualified_identifier h)) hOther hName)), skips_iff.mpr rfl⟩

/-- A built-in word needs no declaration. -/
theorem isBuiltin_of_builtIn {word : String} (h : BuiltIn word) : isBuiltin word = true := by
  have hIdentifier := isIdentifier_of_builtIn h
  have hPath := path_of_identifier hIdentifier
  have hWord : Spells word word := spells_iff.mpr (unqualified_identifier hIdentifier)
  have hRead (t : TypeExpr) (hPrimary : Primary tokens TypeExpr.noNames word.toList t []) :
      isBuiltin word = true := by
    have hParse := parse_of_derives ⟨[], .single hPrimary, skips_iff.mpr rfl⟩
    rw [isBuiltin, hParse]
    exact Bool.or_true _
  rcases h with hForm | hScalar | hContainer
  · have hName : formNames.contains word = true := by
      rw [List.contains_iff_mem]
      exact hForm
    rw [isBuiltin, hName, Bool.or_true]
    rfl
  · obtain ⟨⟨_, t⟩, hTable, rfl⟩ := List.mem_map.mp hScalar
    exact hRead t (.scalar hPath hWord hTable)
  · have hSet : word ≠ "collections.abc.Set" := by
      rintro rfl
      exact absurd hIdentifier (by decide)
    obtain ⟨⟨_, origin⟩, hTable, rfl⟩ := List.mem_map.mp hContainer
    exact hRead _ (.bare hPath (.word hSet hWord hTable))

/-! Declared names -/

/-- The aliases and record classes by name, aliases first. -/
def entriesOf (file : ManifestFile) : Entries Named :=
  (file.aliases.map fun entry => (entry.1, .alias entry.2)) ++
    file.types.map fun decl => (decl.name, .type decl)

/-- The names can be declared together. -/
structure Declarable (names : List String) : Prop where
  distinct : names.Nodup
  identifier {name : String} (h : name ∈ names) : isIdentifier name = true
  free {name : String} (h : name ∈ names) : isBuiltin name = false

theorem Declarable.sublist {names names' : List String} (h : Declarable names)
    (hSub : names'.Sublist names) : Declarable names' :=
  ⟨h.distinct.sublist hSub, fun hm => h.identifier (hSub.subset hm),
    fun hm => h.free (hSub.subset hm)⟩

theorem Declarable.perm {names names' : List String} (h : Declarable names)
    (hPerm : names.Perm names') : Declarable names' :=
  ⟨hPerm.nodup h.distinct, fun hm => h.identifier (hPerm.mem_iff.mpr hm),
    fun hm => h.free (hPerm.mem_iff.mpr hm)⟩

theorem declarable_nil : Declarable [] := ⟨.nil, nofun, nofun⟩

/-- What a further name has to be is what the manifest checks when it is declared. -/
theorem declarable_append_singleton {names : List String} (h : Declarable names) {name : String} :
    Declarable (names ++ [name]) ↔
      isIdentifier name = true ∧ isBuiltin name = false ∧ name ∉ names := by
  constructor
  · intro h'
    have hm : name ∈ names ++ [name] := List.mem_append_right _ (.head _)
    refine ⟨h'.identifier hm, h'.free hm, fun hOld => ?_⟩
    exact (List.nodup_append.mp h'.distinct).2.2 name hOld name (.head _) rfl
  · intro h'
    obtain ⟨hIdentifier, hFree, hNew⟩ := h'
    refine ⟨List.nodup_append.mpr ⟨h.distinct, List.nodup_singleton _, ?_⟩, ?_, ?_⟩
    · intro other hOther _ hm
      rw [List.mem_singleton.mp hm]
      exact fun he => hNew (he ▸ hOther)
    · intro other hm
      rcases List.mem_append.mp hm with hm | hm
      · exact h.identifier hm
      · rwa [List.mem_singleton.mp hm]
    · intro other hm
      rcases List.mem_append.mp hm with hm | hm
      · exact h.free hm
      · rwa [List.mem_singleton.mp hm]

/-- A name is declared behind all others, or refused. -/
theorem declare_eq_ok_iff {declared declared' : Entries Named} (h : Declarable declared.keys)
    {name : String} {named : Named} :
    declare declared name named = .ok declared' ↔
      declared' = declared ++ [(name, named)] ∧ Declarable declared'.keys := by
  have hSteps : declare declared name named = .ok declared' ↔
      (isIdentifier name = true ∧ isBuiltin name = false ∧ name ∉ declared.keys) ∧
        declared' = declared ++ [(name, named)] := by
    rw [declare, ← Entries.hasKey_iff]
    cases isIdentifier name <;> cases isBuiltin name <;> cases declared.hasKey name <;> simp
    exact eq_comm
  rw [hSteps, ← declarable_append_singleton h, and_comm]
  refine and_congr_right fun he => ?_
  rw [he, Entries.keys_append]
  rfl

/-- Names declared one after the other, by induction on the list. -/
theorem foldlM_declare_eq_ok_iff {α : Type} (entry : α → String × Named) {items : List α}
    {declared declared' : Entries Named} (h : Declarable declared.keys) :
    items.foldlM (fun declared item => declare declared (entry item).1 (entry item).2) declared =
        .ok declared' ↔
      declared' = declared ++ items.map entry ∧ Declarable declared'.keys := by
  induction items generalizing declared with
  | nil =>
      rw [List.foldlM_nil, pure_eq_ok_iff, List.map_nil, List.append_nil, eq_comm]
      exact (and_iff_left_of_imp fun he => he ▸ h).symm
  | cons item items ih =>
      rw [List.foldlM_cons, bind_eq_ok_iff, List.map_cons, List.append_cons]
      constructor
      · intro hFold
        obtain ⟨mid, hFirst, hMore⟩ := hFold
        obtain ⟨rfl, hMid⟩ := (declare_eq_ok_iff h).mp hFirst
        exact (ih hMid).mp hMore
      · intro hFold
        obtain ⟨rfl, hAll⟩ := hFold
        have hMid : Declarable (declared ++ [entry item]).keys := by
          rw [Entries.keys_append] at hAll
          exact hAll.sublist (List.sublist_append_left _ _)
        exact ⟨_, (declare_eq_ok_iff h).mpr ⟨rfl, hMid⟩, (ih hMid).mpr ⟨rfl, hAll⟩⟩

/-- A manifest declares its aliases and record classes, if that is possible. -/
theorem declaredNames_eq_ok_iff {file : ManifestFile} {declared : Entries Named} :
    declaredNames file = .ok declared ↔ declared = entriesOf file ∧ Declarable declared.keys := by
  have hAliases (aliases : Entries Named) :=
    @foldlM_declare_eq_ok_iff (String × String) (fun entry => (entry.1, .alias entry.2))
      file.aliases [] aliases declarable_nil
  have hTypes (aliases : Entries Named) :=
    @foldlM_declare_eq_ok_iff TypeDecl (fun decl => (decl.name, .type decl)) file.types aliases
      declared
  have hSteps : declaredNames file = .ok declared ↔ ∃ aliases,
      file.aliases.foldlM (fun declared entry => declare declared entry.1 (.alias entry.2)) [] =
        .ok aliases ∧
      file.types.foldlM (fun declared decl => declare declared decl.name (.type decl)) aliases =
        .ok declared := bind_eq_ok_iff
  rw [hSteps]
  constructor
  · intro h
    obtain ⟨aliases, hFirst, hSecond⟩ := h
    obtain ⟨rfl, hMid⟩ := (hAliases aliases).mp hFirst
    exact (hTypes _ hMid).mp hSecond
  · intro h
    obtain ⟨rfl, hAll⟩ := h
    have hMid : Declarable (Entries.keys ([] ++ file.aliases.map fun entry =>
        (entry.1, Named.alias entry.2))) := by
      rw [entriesOf, Entries.keys_append] at hAll
      exact hAll.sublist (List.sublist_append_left _ _)
    exact ⟨_, (hAliases _).mpr ⟨rfl, hMid⟩, (hTypes _ hMid).mpr ⟨rfl, hAll⟩⟩

/-! References -/

/-- A name refers to the declared names in its texts, in their order. -/
theorem get?_graphOf (declared : Entries Named) (name : String) :
    (graphOf declared).get? name =
      (declared.get? name).map fun named => named.texts.flatMap (references declared.keys) := by
  simp only [graphOf, Entries.get?, List.find?_map, Option.map_map]
  rfl

theorem keys_graphOf (declared : Entries Named) : (graphOf declared).keys = declared.keys := by
  simp [graphOf, Entries.keys, Function.comp_def]

/-- A name refers to the declared names that the scan finds in its texts. -/
theorem edge_graphOf_iff {declared : Entries Named} {name target : String} :
    Edge (graphOf declared) name target ↔ ∃ named, declared.get? name = some named ∧
      ∃ text ∈ named.texts, target ∈ words text.toList ∧ target ∈ declared.keys := by
  simp [Edge, get?_graphOf, references_eq]

end ToolSchema.Manifest
