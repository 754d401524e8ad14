import ToolSchema.Proofs.Manifest.Resolution

/-! Circular references. A manifest is refused for a cycle if there is one, and
only then unless a declared name stands where it does not refer to anything. -/
namespace ToolSchema.Manifest

open Except
open Relation (TransGen)
open TypeExpr (Names)
open TypeExpr.Grammar

/-- With no names to be careful about, nothing is asked of the tokens. -/
theorem StandsIn.nil {names : Names} {declared : List String} (h : StandsIn names declared) :
    StandsIn names [] where
  identifier := h.identifier
  itself hName := (h.itself hName).imp_right fun hOther => ⟨hOther.1, List.not_mem_nil⟩
  builtIn _ := List.not_mem_nil

theorem avoiding_within {lexicon : Lexicon} {declared : List String} :
    (avoiding lexicon declared).Within lexicon where
  path _ _ _ h := h.1
  constant _ _ _ h := h.1
  tag _ _ _ h := h.1

theorem mem_mentionsAll {types : List TypeExpr} {name : String} :
    name ∈ TypeExpr.mentionsAll types ↔ ∃ t ∈ types, name ∈ t.mentions := by
  induction types with
  | nil => simp [TypeExpr.mentionsAll]
  | cons t types ih => simp [TypeExpr.mentionsAll, ih]

/-- What is put together from parts that mention only declared names does so too. -/
theorem mentions_hereditary {declared : List String} :
    IsHereditary fun t => ∀ name ∈ t.mentions, name ∈ declared where
  scalar hTable := by
    have hNothing : ∀ entry ∈ scalars, entry.2.mentions = [] := by decide
    simp [hNothing _ hTable]
  ellipsis _ h := absurd h List.not_mem_nil
  literal _ _ h := absurd h List.not_mem_nil
  tagged h _ := h
  union _ h name hm := by
    obtain ⟨t, hType, hm⟩ := mem_mentionsAll.mp hm
    exact h t hType name hm
  generic _ h name hm := by
    obtain ⟨t, hType, hm⟩ := mem_mentionsAll.mp hm
    exact h t hType name hm

/-- Every declared name stands for itself. -/
def available (declared : Entries Named) : Names := fun name =>
  if declared.hasKey name then some (.alias name .any) else Catalog.builtinNames.get? name

/-- Reading one of the texts of the first name asks for the second one. -/
def RefersTo (declared : Entries Named) (name target : String) : Prop :=
  ∃ named, declared.get? name = some named ∧ ∃ text ∈ named.texts, ∃ t,
    TypeExpr.parse (available declared) text = .ok t ∧ target ∈ t.mentions

section

variable {declared : Entries Named} (hDeclarable : Declarable declared.keys)

/-- A name stands for itself or is a built-in one. -/
theorem available_eq_some {name : String} {t : TypeExpr} (h : available declared name = some t) :
    (name ∈ declared.keys ∧ t = .alias name .any) ∨
      (name ∉ declared.keys ∧ Catalog.builtinNames.get? name = some t) := by
  rw [available] at h
  split at h
  · next hKey =>
    cases h
    exact .inl ⟨(Entries.hasKey_iff _ _).mp hKey, rfl⟩
  · next hKey => exact .inr ⟨fun hm => hKey ((Entries.hasKey_iff _ _).mpr hm), h⟩

theorem builtinNames_entry : ∀ entry ∈ Catalog.builtinNames,
    isIdentifier entry.1 = true ∧ entry.2.mentions = [] := by
  decide

include hDeclarable

/-- Names that stand for themselves can be followed by the scan, next to the built-in ones. -/
theorem standsIn_available : StandsIn (available declared) declared.keys where
  identifier h := by
    rcases available_eq_some h with ⟨hm, _⟩ | ⟨_, h⟩
    · exact hDeclarable.identifier hm
    · exact (builtinNames_entry _ (Entries.mem_of_get? h)).1
  itself h := by
    rcases available_eq_some h with ⟨_, rfl⟩ | ⟨hOther, h⟩
    · exact .inl rfl
    · exact .inr ⟨(builtinNames_entry _ (Entries.mem_of_get? h)).2, hOther⟩
  builtIn h hm := by
    have hFree := hDeclarable.free hm
    rw [isBuiltin_of_builtIn h] at hFree
    cases hFree

/-- A declared name is read as itself. -/
theorem primary_of_declared {name : String} (h : name ∈ declared.keys) {text : List Char}
    (hText : Skips text name.toList) :
    Primary (avoiding tokens declared.keys) (available declared) text (.alias name .any) [] := by
  have hIdentifier := hDeclarable.identifier h
  have hAvailable : available declared name = some (.alias name .any) := by
    rw [available, if_pos ((Entries.hasKey_iff _ _).mpr h)]
  have hOther : ¬ BuiltIn name := fun hBuiltIn =>
    (standsIn_available hDeclarable).builtIn hBuiltIn h
  refine .name ⟨_, hText, name_of_identifier hIdentifier, ?_⟩
    (.path (spells_iff.mpr (unqualified_identifier hIdentifier)) hOther hAvailable)
  exact fun _ hModule word he => absurd he (ne_module_of_identifier hIdentifier hModule word)

/-- Only declared names are mentioned. -/
theorem mem_keys_of_mentions {text : String} {t : TypeExpr}
    (h : TypeExpr.parse (available declared) text = .ok t) :
    ∀ name ∈ t.mentions, name ∈ declared.keys := by
  refine parse_hereditary mentions_hereditary (fun path t hPath => ?_) h
  rcases (standsIn_available hDeclarable).itself hPath with hItself | ⟨hNothing, _⟩
  · rcases available_eq_some hPath with ⟨hm, _⟩ | ⟨hOther, h⟩
    · simpa [hItself] using hm
    · have hNothing := (builtinNames_entry _ (Entries.mem_of_get? h)).2
      simp [hNothing]
  · simp [hNothing]

/-- The scan sees every reference. -/
theorem edge_of_refersTo (hLines : ∀ entry ∈ declared, ∀ text ∈ entry.2.texts, Unbroken text.toList)
    {name target : String} (h : RefersTo declared name target) :
    Edge (graphOf declared) name target := by
  obtain ⟨named, hNamed, text, hText, t, hParse, hTarget⟩ := h
  have hAccounts := accounts_of_derives followed_tokens (standsIn_available hDeclarable).nil
    (derives_of_parse hParse) (hLines _ (Entries.mem_of_get? hNamed) text hText)
  exact edge_graphOf_iff.mpr ⟨named, hNamed, text, hText, hAccounts.covers target hTarget,
    mem_keys_of_mentions hDeclarable hParse target hTarget⟩

/-- The scan sees nothing but references where declared names stand for nothing
else. -/
theorem refersTo_of_edge (hLines : ∀ entry ∈ declared, ∀ text ∈ entry.2.texts, Unbroken text.toList)
    (hReads : ∀ entry ∈ declared, ∀ text ∈ entry.2.texts, ∃ t,
      Derives (avoiding tokens declared.keys) (available declared) text.toList t)
    {name target : String} (h : Edge (graphOf declared) name target) :
    RefersTo declared name target := by
  obtain ⟨named, hNamed, text, hText, hFound, hTarget⟩ := edge_graphOf_iff.mp h
  obtain ⟨t, hDerives⟩ := hReads _ (Entries.mem_of_get? hNamed) text hText
  have hAccounts := accounts_of_derives (followed_avoiding declared.keys)
    (standsIn_available hDeclarable) hDerives (hLines _ (Entries.mem_of_get? hNamed) text hText)
  exact ⟨named, hNamed, text, hText, t, parse_of_derives (hDerives.within avoiding_within),
    hAccounts.only target hFound hTarget⟩

end

/-- Functions are not part of any cycle. Nothing refers to them. -/
theorem addFunction_ne_cycle {manifest : Manifest} {decl : FunctionDecl} {names : List String} :
    addFunction manifest decl ≠ .error (.fault (.cycle names)) := by
  intro h
  rw [addFunction] at h
  split at h
  · cases h
  · rcases bind_eq_error_iff.mp h with h | ⟨_, _, h⟩
    · obtain ⟨_, _, h⟩ := mapError_eq_error_iff.mp h
      cases h
    · cases h

/-- A manifest is refused for a cycle exactly if its names cannot be ordered. -/
theorem resolve_eq_cycle_iff {file : ManifestFile} {declared : Entries Named}
    (hDeclared : declaredNames file = .ok declared) (names : List String) :
    resolve file = .error (.fault (.cycle names)) ↔
      resolutionOrder (graphOf declared) = .error names := by
  have hNames : (declaredNames file).mapError ManifestError.fault = .ok declared := by
    rw [hDeclared]
    rfl
  rw [resolve, hNames, ok_bind]
  constructor
  · intro h
    rcases bind_eq_error_iff.mp h with h | ⟨order, _, h⟩
    · obtain ⟨_, hOrder, h⟩ := mapError_eq_error_iff.mp h
      cases h
      exact hOrder
    · rcases bind_eq_error_iff.mp h with h | ⟨manifest, _, h⟩
      · obtain ⟨_, _, h⟩ := mapError_eq_error_iff.mp h
        cases h
      · obtain ⟨_, decl, _, state, _, _, h⟩ := exists_of_foldlM_eq_error h
        exact absurd h addFunction_ne_cycle
  · intro h
    rw [h]
    rfl

/-- A circle of references is always found. -/
theorem refused_of_cycle {file : ManifestFile} {declared : Entries Named}
    (hDeclared : declaredNames file = .ok declared) {name : String}
    (hCycle : TransGen (Edge (graphOf declared)) name name) :
    ∃ names, resolve file = .error (.fault (.cycle names)) := by
  cases hOrder : resolutionOrder (graphOf declared) with
  | error names => exact ⟨names, (resolve_eq_cycle_iff hDeclared names).mpr hOrder⟩
  | ok order =>
      have hVisited := order_of_resolutionOrder hOrder
      exact absurd hCycle (hVisited.ready.no_circle hVisited.visited name)

/-- A manifest is refused for a cycle exactly if a name refers to itself, directly
or through others. Declared names may stand in its texts as parts of strings, but
not as other constants, as tags or as modules. -/
theorem refused_iff_cycle {file : ManifestFile} {declared : Entries Named}
    (hDeclared : declaredNames file = .ok declared) (hLines : WholeLines file)
    (hReads : ∀ entry ∈ declared, ∀ text ∈ entry.2.texts, ∃ t,
      Derives (avoiding tokens declared.keys) (available declared) text.toList t) :
    (∃ names, resolve file = .error (.fault (.cycle names))) ↔
      ∃ name, TransGen (RefersTo declared) name name := by
  obtain ⟨rfl, hDeclarable⟩ := declaredNames_eq_ok_iff.mp hDeclared
  constructor
  · intro h
    obtain ⟨names, h⟩ := h
    obtain ⟨name, hCycle⟩ :=
      (cycle_of_resolutionOrder ((resolve_eq_cycle_iff hDeclared names).mp h)).exists_trans
    exact ⟨name, hCycle.lift id fun _ _ => refersTo_of_edge hDeclarable hLines hReads⟩
  · intro h
    obtain ⟨name, hCycle⟩ := h
    exact refused_of_cycle hDeclared
      (hCycle.lift id fun _ _ => edge_of_refersTo hDeclarable hLines)

/-- Two names that refer to each other, where one of them stands in a literal too. -/
theorem circle_refused :
    (declaredNames ⟨[("A", "Literal['A'] | B"), ("B", "A")], [], []⟩ =
        .ok [("A", .alias "Literal['A'] | B"), ("B", .alias "A")] ∧
      WholeLines ⟨[("A", "Literal['A'] | B"), ("B", "A")], [], []⟩ ∧
      ∀ text ∈ ["Literal['A'] | B", "A"], ∃ t, Derives (avoiding tokens ["A", "B"])
        (available [("A", .alias "Literal['A'] | B"), ("B", .alias "A")]) text.toList t) ∧
      ∃ names, resolve ⟨[("A", "Literal['A'] | B"), ("B", "A")], [], []⟩ =
        .error (.fault (.cycle names)) := by
  let declared : Entries Named := [("A", .alias "Literal['A'] | B"), ("B", .alias "A")]
  have hFree : isBuiltin "A" = false ∧ isBuiltin "B" = false := ⟨by cbv, by cbv⟩
  have hDeclarable : Declarable declared.keys :=
    (declarable_append_singleton ((declarable_append_singleton declarable_nil).mpr
      ⟨by decide, hFree.1, by simp⟩)).mpr ⟨by decide, hFree.2, by decide⟩
  have hDeclared :
      declaredNames ⟨[("A", "Literal['A'] | B"), ("B", "A")], [], []⟩ = .ok declared :=
    declaredNames_eq_ok_iff.mpr ⟨rfl, hDeclarable⟩
  have hLines : WholeLines ⟨[("A", "Literal['A'] | B"), ("B", "A")], [], []⟩ :=
    fun entry hEntry text hText => unbroken_of_not_mem
      ((by decide : ∀ entry ∈ declared, ∀ text ∈ entry.2.texts, '\n' ∉ text.toList)
        entry hEntry text hText)
  have hA : Primary (avoiding tokens declared.keys) (available declared) "A".toList
      (.alias "A" .any) [] :=
    primary_of_declared hDeclarable (.head _) (skips_iff.mpr (by decide))
  have hB : Primary (avoiding tokens declared.keys) (available declared) " B".toList
      (.alias "B" .any) [] :=
    primary_of_declared hDeclarable (.tail _ (.head _)) (skips_iff.mpr (by decide))
  have hString : QuotedText "'A'] | B".toList "A" "] | B".toList :=
    ⟨'\'', .head _, _, rfl, .char (by decide) (by decide) (.close _)⟩
  have hWord : Name "Literal['A'] | B".toList "Literal" "['A'] | B".toList :=
    ⟨nameRun_iff.mpr (by decide), by decide, by decide, by decide⟩
  have hOpen : Mark '[' "['A'] | B".toList "'A'] | B".toList := skips_iff.mpr (by decide)
  have hLiteral : Primary (avoiding tokens declared.keys) (available declared)
      "Literal['A'] | B".toList (.literal [.str "A"]) " | B".toList :=
    .literal ⟨_, skips_iff.mpr (by decide), hWord, fun _ hModule word he =>
        absurd he (ne_module_of_identifier (by decide) hModule word)⟩ (spells_iff.mpr (by decide))
      hOpen ⟨_, skips_iff.mpr rfl, .str hString,
        silent_of_quoted hString _⟩ (.nil _) (skips_iff.mpr (by decide))
  have hBar : Mark '|' " | B".toList " B".toList := skips_iff.mpr (by decide)
  have hFirst : Derives (avoiding tokens declared.keys) (available declared)
      "Literal['A'] | B".toList (.union [.literal [.str "A"], .alias "B" .any]) :=
    ⟨[], .several hLiteral (.cons hBar hB (.nil _)), skips_iff.mpr rfl⟩
  have hSecond : Derives (avoiding tokens declared.keys) (available declared) "A".toList
      (.alias "A" .any) :=
    ⟨[], .single hA, skips_iff.mpr rfl⟩
  have hReads : ∀ text ∈ ["Literal['A'] | B", "A"], ∃ t,
      Derives (avoiding tokens declared.keys) (available declared) text.toList t := by
    simpa using ⟨⟨_, hFirst⟩, _, hSecond⟩
  have hAB : RefersTo declared "A" "B" :=
    ⟨_, rfl, _, .head _, _, parse_of_derives (hFirst.within avoiding_within), .head _⟩
  have hBA : RefersTo declared "B" "A" :=
    ⟨_, rfl, _, .head _, _, parse_of_derives (hSecond.within avoiding_within), .head _⟩
  refine ⟨⟨hDeclared, hLines, hReads⟩, (refused_iff_cycle hDeclared hLines ?_).mpr
    ⟨"A", .head hAB (.single hBA)⟩⟩
  intro entry hEntry text hText
  refine hReads text ?_
  rcases List.mem_pair.mp hEntry with rfl | rfl
  · exact List.mem_pair.mpr (.inl (List.mem_singleton.mp hText))
  · exact List.mem_pair.mpr (.inr (List.mem_singleton.mp hText))

/-- A name that stands for a tag is taken for a reference. -/
theorem tag_taken_for_reference : ¬ ∀ (file : ManifestFile) (declared : Entries Named),
    declaredNames file = .ok declared →
      (∀ entry ∈ declared, ∀ text ∈ entry.2.texts, ∃ t,
        TypeExpr.parse (available declared) text = .ok t) →
      ((∃ names, resolve file = .error (.fault (.cycle names))) ↔
        ∃ name, TransGen (RefersTo declared) name name) := by
  intro h
  have hFree : isBuiltin "units" = false := by cbv
  have hParse : TypeExpr.parse (available [("units", .alias "Annotated[float, units]")])
      "Annotated[float, units]" = .ok (.tagged .float ["units"]) := by cbv
  have hRefused : resolve ⟨[("units", "Annotated[float, units]")], [], []⟩ =
      .error (.fault (.cycle ["units", "units"])) := by
    cbv
  have hDeclared : declaredNames ⟨[("units", "Annotated[float, units]")], [], []⟩ =
      .ok [("units", .alias "Annotated[float, units]")] := by
    refine declaredNames_eq_ok_iff.mpr ⟨rfl, ?_⟩
    exact (declarable_append_singleton declarable_nil).mpr ⟨by decide, hFree, by simp⟩
  have hIff := h _ _ hDeclared (by simpa [Named.texts] using ⟨_, hParse⟩)
  obtain ⟨name, hCycle⟩ := hIff.mp ⟨_, hRefused⟩
  obtain ⟨target, ⟨named, hNamed, text, hText, t, hRead, hTarget⟩, _⟩ :=
    TransGen.head'_iff.mp hCycle
  have hEntry := Entries.mem_of_get? hNamed
  simp only [List.mem_singleton, Prod.mk.injEq] at hEntry
  rw [hEntry.2, Named.texts, List.mem_singleton] at hText
  rw [hText, hParse] at hRead
  cases hRead
  cases hTarget

end ToolSchema.Manifest
