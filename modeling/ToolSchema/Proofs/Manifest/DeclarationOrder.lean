import ToolSchema.Proofs.Extraction.Matching
import ToolSchema.Proofs.Manifest.Resolved

/-! The order of declarations does not matter. Whatever the order, the same names
resolve, and what they mean differs only in where classes are placed. -/
namespace ToolSchema.Manifest

open Except
open TypeExpr (Matches)

/-- The same declarations in another order. -/
structure Reordered (file file' : ManifestFile) : Prop where
  aliases : file.aliases.Perm file'.aliases
  types : file.types.Perm file'.types
  functions : file.functions.Perm file'.functions

/-- Whatever holds of a reordered file holds the other way around too. -/
theorem Reordered.symm {file file' : ManifestFile} (h : Reordered file file') :
    Reordered file' file :=
  ⟨h.aliases.symm, h.types.symm, h.functions.symm⟩

/-! What the scan finds -/

/-- Related types may be replaced by equal ones on both sides. -/
theorem rel_of_eq {r : TypeExpr → TypeExpr → Prop} {first first' second second' : Option TypeExpr}
    (hFirst : Option.Rel Eq first first') (hSecond : Option.Rel Eq second second')
    (h : Option.Rel r first' second') : Option.Rel r first second := by
  cases hFirst with
  | none =>
      cases hSecond with
      | none => exact h
      | some he => exact he ▸ h
  | some he =>
      cases hSecond with
      | none => exact he ▸ h
      | some he' => exact he ▸ he' ▸ h

/-- What is related now was related when it was looked up. -/
theorem RelatedOn.of_sees {r : TypeExpr → TypeExpr → Prop} {manifest manifest' : Manifest}
    {known known' : Entries TypeExpr} {texts : List String} (hSees : Sees manifest known texts)
    (hSees' : Sees manifest' known' texts) {text : String} (hText : text ∈ texts)
    (h : RelatedOn r (lookup manifest.names) (lookup manifest'.names) (words text.toList)) :
    RelatedOn r (lookup known) (lookup known') (words text.toList) := fun path hPath =>
  rel_of_eq (hSees text hText path hPath) (hSees' text hText path hPath) (h path hPath)

section

variable {file file' : ManifestFile}

theorem Reordered.entries (h : Reordered file file') : (entriesOf file).Perm (entriesOf file') :=
  (h.aliases.map _).append (h.types.map _)

theorem Reordered.keys (h : Reordered file file') :
    (entriesOf file).keys.Perm (entriesOf file').keys :=
  h.entries.map _

/-- No name is declared twice, so lookup does not see the order. -/
theorem Reordered.get?_eq (h : Reordered file file') (hDeclarable : Declarable (entriesOf file).keys)
    (name : String) : (entriesOf file').get? name = (entriesOf file).get? name := by
  have hDistinct' := (hDeclarable.perm h.keys).distinct
  apply Option.ext
  intro named
  rw [Entries.get?_eq_some_iff hDistinct', Entries.get?_eq_some_iff hDeclarable.distinct,
    h.entries.mem_iff]

theorem Reordered.wholeLines (h : Reordered file file') (hLines : WholeLines file) :
    WholeLines file' := fun entry hEntry => hLines entry (h.entries.mem_iff.mpr hEntry)

/-- The references of a name come from its own texts, so the order does not change them. -/
theorem Reordered.edge (h : Reordered file file') (hDeclarable : Declarable (entriesOf file).keys)
    {name target : String} (hEdge : Edge (graphOf (entriesOf file')) name target) :
    Edge (graphOf (entriesOf file)) name target := by
  obtain ⟨named, hNamed, text, hText, hFound, hTarget⟩ := edge_graphOf_iff.mp hEdge
  rw [h.get?_eq hDeclarable] at hNamed
  exact edge_graphOf_iff.mpr ⟨named, hNamed, text, hText, hFound, h.keys.mem_iff.mpr hTarget⟩

/-- Names are related where a text looks them up if those are that the text refers to,
and those that are not declared. -/
theorem relatedOn_words {r : TypeExpr → TypeExpr → Prop} {names names' : TypeExpr.Names}
    (hDeclarable : Declarable (entriesOf file).keys) {name : String} {named : Named}
    (hNamed : (entriesOf file).get? name = some named)
    (hTargets : ∀ target, Edge (graphOf (entriesOf file)) name target →
      Option.Rel r (names target) (names' target))
    (hOther : ∀ path ∉ (entriesOf file).keys, Option.Rel r (names path) (names' path))
    {text : String} (hText : text ∈ named.texts) : RelatedOn r names names' (words text.toList) := by
  intro path hPath
  by_cases hKey : path ∈ (entriesOf file).keys
  · exact hTargets path (edge_graphOf_iff.mpr
      ⟨named, hNamed, text, hText, hPath (hDeclarable.identifier hKey), hKey⟩)
  · exact hOther path hKey

/-! Success -/

section

variable {manifest mid : Manifest}

theorem Means.known {name : String} {named : Named} (h : Means manifest name named) :
    ∃ t, manifest.names.get? name = some t := by
  cases h with
  | named _ _ hName => exact ⟨_, hName⟩
  | record _ _ hName => exact ⟨_, hName⟩

/-- A name that has a meaning can be resolved where what it asks for is known. -/
theorem exists_addNamed {name : String} {named : Named} (h : Means manifest name named)
    (hLines : ∀ text ∈ named.texts, Unbroken text.toList)
    (hKnown : ∀ text ∈ named.texts, RelatedOn (fun _ _ => True) (lookup manifest.names)
      (lookup mid.names) (words text.toList)) : ∃ mid', addNamed mid name named = .ok mid' := by
  have hParse {known : Entries TypeExpr} (hSees : Sees manifest known named.texts) {text : String}
      (hText : text ∈ named.texts) {t : TypeExpr} (h : TypeExpr.parse (lookup known) text = .ok t) :
      ∃ t', True ∧ TypeExpr.parse (lookup mid.names) text = .ok t' :=
    parse_related isCongruence_true (hLines text hText)
      (.of_sees hSees (sees_self mid _) hText (hKnown text hText)) h
  cases h with
  | named hSees hRead _ =>
      obtain ⟨t', _, hRead'⟩ := hParse hSees (.head _) hRead
      exact ⟨_, addNamed_alias_eq_ok_iff.mpr ⟨t', hRead', rfl⟩⟩
  | @record decl _ _ _ hSees hBuild _ _ _ _ _ =>
      obtain ⟨callable, hBuild', _⟩ := Plan.build_related (decl.start_related _)
        (fun text hText t h => hParse hSees (texts_plan decl ▸ hText) h) hBuild
      exact ⟨_, addNamed_type_eq_ok_iff.mpr ⟨callable, hBuild', rfl⟩⟩

/-- Every declared name has a meaning, by its own declaration. -/
theorem Complete.exists_means (h : Complete file manifest) {name : String}
    (hKey : name ∈ (entriesOf file).keys) :
    ∃ named, (entriesOf file).get? name = some named ∧ Means manifest name named := by
  obtain ⟨named, hNamed⟩ := Option.isSome_iff_exists.mp ((Entries.get?_isSome_iff _ _).mpr hKey)
  exact ⟨named, hNamed, h.means hNamed⟩

/-- The same names are known as soon as they are resolved. -/
theorem rel_known (hReordered : Reordered file file') (h : Complete file manifest)
    {order : List String} (hResolved : Resolved (entriesOf file') order mid)
    (hKeys : ∀ name ∈ order, name ∈ (entriesOf file').keys) {path : String}
    (hPath : path ∈ (entriesOf file').keys → path ∈ order) :
    Option.Rel (fun _ _ => True) (lookup manifest.names path) (lookup mid.names path) := by
  by_cases hKey : path ∈ (entriesOf file').keys
  · obtain ⟨_, _, hMeans⟩ := h.exists_means (hReordered.keys.mem_iff.mpr hKey)
    obtain ⟨_, _, hMeans'⟩ := hResolved.means (hPath hKey)
    obtain ⟨t, ht⟩ := hMeans.known
    obtain ⟨t', ht'⟩ := hMeans'.known
    rw [lookup, lookup, ht, ht']
    exact .some trivial
  · rw [lookup, lookup, hResolved.other fun hm => hKey (hKeys path hm),
      h.other fun hm => hKey (hReordered.keys.mem_iff.mp hm)]
    exact rel_refl (fun _ => trivial) _

/-- What resolves in one order resolves in every other order of references. -/
theorem exists_addNames (hReordered : Reordered file file') (hLines : WholeLines file)
    (h : Complete file manifest) {order : List String}
    (hReady : ReadyOrder (graphOf (entriesOf file')) order)
    (hKeys : ∀ name ∈ order, name ∈ (entriesOf file').keys) :
    ∃ mid, addNames (entriesOf file') empty order = .ok mid := by
  have hDeclarable' := h.declarable.perm hReordered.keys
  induction hReady with
  | nil => exact ⟨empty, rfl⟩
  | @snoc order name hReady hNew hTargets ih =>
      rw [List.forall_mem_append] at hKeys
      obtain ⟨mid, hMid⟩ := ih hKeys.1
      have hResolved := resolved_of_addNames hDeclarable' hReady hKeys.1 hMid
      obtain ⟨named, hNamed, hMeans⟩ :=
        h.exists_means (hReordered.keys.mem_iff.mpr (hKeys.2 name (.head _)))
      rw [← hReordered.get?_eq h.declarable] at hNamed
      obtain ⟨mid', hAdd⟩ := exists_addNamed hMeans
        (hReordered.wholeLines hLines _ (Entries.mem_of_get? hNamed)) fun text hText =>
          relatedOn_words hDeclarable' hNamed
            (fun target hEdge => rel_known hReordered h hResolved hKeys.1
              fun _ => hTargets target hEdge)
            (fun _ hOther => rel_known hReordered h hResolved hKeys.1 fun hKey =>
              absurd hKey hOther)
            hText
      refine ⟨mid', ?_⟩
      rw [addNames_eq_foldlM, List.foldlM_append]
      refine bind_eq_ok_iff.mpr ⟨mid, hMid, bind_eq_ok_iff.mpr ⟨mid', ?_, rfl⟩⟩
      rw [addName, hNamed]
      exact hAdd

/-- Functions can be added in any order if their names are new and each of them can be built. -/
theorem exists_addFunctions {decls : List FunctionDecl}
    (hFresh : ∀ decl ∈ decls, decl.name ∉ mid.callables.keys)
    (hDistinct : (decls.map (·.name)).Nodup)
    (hBuild : ∀ decl ∈ decls, ∃ callable, decl.plan.build mid.names = .ok callable) :
    ∃ manifest', decls.foldlM addFunction mid = .ok manifest' := by
  induction decls generalizing mid with
  | nil => exact ⟨mid, rfl⟩
  | cons decl decls ih =>
      rw [List.forall_mem_cons] at hFresh hBuild
      rw [List.map_cons, List.nodup_cons] at hDistinct
      obtain ⟨callable, hFirst⟩ := hBuild.1
      obtain ⟨next, hAdd⟩ : ∃ next, addFunction mid decl = .ok next :=
        ⟨_, addFunction_eq_ok_iff.mpr ⟨hFresh.1, callable, hFirst, rfl⟩⟩
      have hAdded := added_of_addFunction hAdd
      have hFresh' : ∀ other ∈ decls, other.name ∉ next.callables.keys := by
        intro other hm hOld
        rcases hAdded.callables hOld with hOld | hSame
        · exact hFresh.2 other hm hOld
        · rw [List.map_singleton, List.mem_singleton] at hSame
          exact hDistinct.1 (hSame ▸ List.mem_map_of_mem hm)
      obtain ⟨manifest', hMore⟩ := ih hFresh' hDistinct.2 (hAdded.names ▸ hBuild.2)
      exact ⟨manifest', bind_eq_ok_iff.mpr ⟨next, hAdd, hMore⟩⟩

/-- The other order of declarations has no cycle either. -/
theorem exists_resolutionOrder (hReordered : Reordered file file') (h : Complete file manifest) :
    ∃ order, resolutionOrder (graphOf (entriesOf file')) = .ok order := by
  cases hOrder : resolutionOrder (graphOf (entriesOf file')) with
  | ok order => exact ⟨order, rfl⟩
  | error names =>
      obtain ⟨name, hCycle⟩ := (cycle_of_resolutionOrder hOrder).exists_trans
      have hCycle := hCycle.lift id fun _ _ => hReordered.edge h.declarable
      obtain ⟨order, hReady, hMem⟩ := h.ordered
      rw [← keys_graphOf] at hMem
      exact absurd hCycle (hReady.no_circle (fun name => (hMem name).mpr) name)

/-- Stage by stage: what can be read and built in one order can be read and built in the other. -/
theorem exists_resolve (hReordered : Reordered file file') (hLines : WholeLines file)
    (h : Complete file manifest) : ∃ manifest', resolve file' = .ok manifest' := by
  have hDeclarable' := h.declarable.perm hReordered.keys
  obtain ⟨order, hOrder⟩ := exists_resolutionOrder hReordered h
  have hReady := (order_of_resolutionOrder hOrder).ready
  have hMem := mem_order_iff hOrder
  have hKeys : ∀ name ∈ order, name ∈ (entriesOf file').keys := fun name => (hMem name).mp
  obtain ⟨mid, hMid⟩ := exists_addNames hReordered hLines h hReady hKeys
  have hResolved := resolved_of_addNames hDeclarable' hReady hKeys hMid
  obtain ⟨manifest', hFunctions⟩ : ∃ manifest', file'.functions.foldlM addFunction mid =
      .ok manifest' := by
    apply exists_addFunctions
    · intro decl hm hOld
      obtain ⟨record, hRecord⟩ := (hResolved.callables hOld).2
      rw [hReordered.get?_eq h.declarable] at hRecord
      exact h.apart (hReordered.functions.mem_iff.mpr hm) record hRecord
    · exact (hReordered.functions.map _).nodup_iff.mp h.distinct
    · intro decl hm
      obtain ⟨callable, hBuild, _⟩ := h.functions (hReordered.functions.mem_iff.mpr hm)
      obtain ⟨callable', hBuild', _⟩ := Plan.build_related (decl.start_related _)
        (fun _ _ _ => parse_related_of_forall isCongruence_true fun path =>
          rel_known hReordered h hResolved hKeys (hMem path).mpr) hBuild
      exact ⟨callable', hBuild'⟩
  refine ⟨manifest', bind_eq_ok_iff.mpr ⟨entriesOf file', ?_, ?_⟩⟩
  · exact mapError_eq_ok_iff.mpr (declaredNames_eq_ok_iff.mpr ⟨rfl, hDeclarable'⟩)
  · refine bind_eq_ok_iff.mpr ⟨order, mapError_eq_ok_iff.mpr hOrder, ?_⟩
    exact bind_eq_ok_iff.mpr ⟨mid, mapError_eq_ok_iff.mpr hMid, hFunctions⟩

end

/-! Meanings -/

/-- The classes of the same name. -/
def Counterpart (manifest manifest' : Manifest) (a b : ClassRef) : Prop :=
  a.name = b.name ∧ manifest.names.get? a.name = some (.classRef a) ∧
    manifest'.names.get? b.name = some (.classRef b)

/-- What a declaration says depends on what its texts look up only. -/
theorem rel_of_means {manifest manifest' : Manifest} {name : String} {named : Named}
    (h : Means manifest name named) (h' : Means manifest' name named)
    (hLines : ∀ text ∈ named.texts, Unbroken text.toList)
    (hWords : ∀ text ∈ named.texts, RelatedOn (Matches (Counterpart manifest manifest'))
      (lookup manifest.names) (lookup manifest'.names) (words text.toList)) :
    Option.Rel (Matches (Counterpart manifest manifest')) (manifest.names.get? name)
      (manifest'.names.get? name) := by
  cases h with
  | @named text known target hSees hParse hName =>
      cases h' with
      | @named _ known' target' hSees' hParse' hName' =>
        obtain ⟨t, hMatches, hRead⟩ := parse_related isCongruence_matches (hLines text (.head _))
          (.of_sees hSees hSees' (.head _) (hWords text (.head _))) hParse
        cases hRead.symm.trans hParse'
        rw [hName, hName']
        exact .some (.named name hMatches)
  | record _ _ hName hRef =>
      cases h' with
      | record _ _ hName' hRef' =>
        have hClass := hName
        have hClass' := hName'
        rw [← hRef] at hClass
        rw [← hRef'] at hClass'
        rw [hName, hName']
        exact .some (.classRef ⟨hRef.trans hRef'.symm, hClass, hClass'⟩)

section

variable {manifest manifest' : Manifest} (hReordered : Reordered file file')
  (h : Complete file manifest) (h' : Complete file' manifest')

include hReordered h h'

/-- Names that are not declared mean the same on both sides. -/
theorem rel_builtin {name : String} (hName : name ∉ (entriesOf file).keys) :
    Option.Rel (Matches (Counterpart manifest manifest')) (manifest.names.get? name)
      (manifest'.names.get? name) := by
  have hSame := h.other hName
  have hSame' := h'.other fun hm => hName (hReordered.keys.mem_iff.mpr hm)
  cases hBuiltin : Catalog.builtinNames.get? name with
  | none =>
      rw [hSame, hSame', hBuiltin]
      exact .none
  | some t =>
      obtain ⟨ref, kind, rfl, rfl, _, _⟩ := builtin_class hBuiltin
      rw [hSame, hSame', hBuiltin]
      exact .some (.classRef ⟨rfl, hSame.trans hBuiltin, hSame'.trans hBuiltin⟩)

/-- By induction on the order: a name means the same if all that it refers to does. -/
theorem rel_names_of_order (hLines : WholeLines file) {order : List String}
    (hReady : ReadyOrder (graphOf (entriesOf file)) order)
    (hKeys : ∀ name ∈ order, name ∈ (entriesOf file).keys) : ∀ name ∈ order,
      Option.Rel (Matches (Counterpart manifest manifest')) (manifest.names.get? name)
        (manifest'.names.get? name) := by
  induction hReady with
  | nil => exact fun _ hm => absurd hm List.not_mem_nil
  | @snoc order last _ _ hTargets ih =>
      rw [List.forall_mem_append] at hKeys
      have hOlder := ih hKeys.1
      refine List.forall_mem_append.mpr ⟨hOlder, fun name hm => ?_⟩
      rw [List.mem_singleton.mp hm]
      obtain ⟨named, hNamed, hMeans⟩ := h.exists_means (hKeys.2 last (.head _))
      have hMeans' := h'.means ((hReordered.get?_eq h.declarable last).trans hNamed)
      refine rel_of_means hMeans hMeans' (hLines _ (Entries.mem_of_get? hNamed)) fun text hText => ?_
      exact relatedOn_words h.declarable hNamed
        (fun target hEdge => hOlder target (hTargets target hEdge))
        (fun _ => rel_builtin hReordered h h') hText

/-- A name means the same in both orders. -/
theorem rel_names (hLines : WholeLines file) (name : String) :
    Option.Rel (Matches (Counterpart manifest manifest')) (manifest.names.get? name)
      (manifest'.names.get? name) := by
  obtain ⟨order, hReady, hMem⟩ := h.ordered
  by_cases hKey : name ∈ (entriesOf file).keys
  · exact rel_names_of_order hReordered h h' hLines hReady (fun name => (hMem name).mp) name
      ((hMem name).mpr hKey)
  · exact rel_builtin hReordered h h' hKey

/-! Classes and functions -/

/-- A class has the same declaration in both orders, and older classes in it. -/
theorem record_related (hLines : WholeLines file) {name : String} {decl : TypeDecl}
    (hNamed : (entriesOf file).get? name = some (.type decl)) :
    ∃ ref ref' callable callable',
      (manifest.names.get? name = some (.classRef ref) ∧ manifest.callables.get? name = some ref ∧
        manifest.catalog.get? ref.index = some callable) ∧
      (manifest'.names.get? name = some (.classRef ref') ∧
        manifest'.callables.get? name = some ref' ∧
        manifest'.catalog.get? ref'.index = some callable') ∧
      callable.Related (Matches (Counterpart manifest manifest')) callable' ∧
      callable.Related (Matches fun older older' => Counterpart manifest manifest' older older' ∧
        older.index < ref.index ∧ older'.index < ref'.index) callable' := by
  have hNamed' := (hReordered.get?_eq h.declarable name).trans hNamed
  cases h.means hNamed with
  | @record _ _ ref callable hSees hBuild hName _ hCallable hEntry hOlder =>
      cases h'.means hNamed' with
      | @record _ _ ref' callable' hSees' hBuild' hName' _ hCallable' hEntry' hOlder' =>
        obtain ⟨other, hOther, hRelated⟩ := Plan.build_related (decl.start_related _)
          (fun text hText _ => parse_related isCongruence_matches
            (hLines _ (Entries.mem_of_get? hNamed) text (texts_plan decl ▸ hText))
            (.of_sees hSees hSees' (texts_plan decl ▸ hText)
              fun path _ => rel_names hReordered h h' hLines path)) hBuild
        cases hOther.symm.trans hBuild'
        refine ⟨ref, ref', callable, callable', ⟨hName, hCallable, hEntry⟩,
          ⟨hName', hCallable', hEntry'⟩, hRelated, ?_⟩
        have hBefore : callable.Related (Matches fun older older' =>
            Counterpart manifest manifest' older older' ∧ older.index < ref.index) callable' :=
          hOlder.chain (fun _ _ _ hst htu => hst.chain
            (fun _ _ _ hPlaced hSame => ⟨hPlaced.1 ▸ hSame, hPlaced.2.1⟩) htu) hRelated
        exact hBefore.chain (fun _ _ _ hst htu => hst.chain
          (fun _ _ _ hSame hPlaced => ⟨hPlaced.1 ▸ hSame.1, hSame.2, hPlaced.1 ▸ hPlaced.2.1⟩) htu)
          hOlder'

/-- A function has the same declaration in both orders. It is built when all names are known. -/
theorem function_related (hLines : WholeLines file) {decl : FunctionDecl}
    (hm : decl ∈ file.functions) : ∃ callable callable',
      manifest.callable? decl.name = some callable ∧
        manifest'.callable? decl.name = some callable' ∧
        callable.Related (Matches (Counterpart manifest manifest')) callable' := by
  obtain ⟨callable, hBuild, hCallable⟩ := h.functions hm
  obtain ⟨callable', hBuild', hCallable'⟩ := h'.functions (hReordered.functions.mem_iff.mp hm)
  obtain ⟨other, hOther, hRelated⟩ := Plan.build_related (decl.start_related _)
    (fun _ _ _ => parse_related_of_forall isCongruence_matches
      fun path => rel_names hReordered h h' hLines path) hBuild
  cases hOther.symm.trans hBuild'
  exact ⟨callable, callable', hCallable, hCallable', hRelated⟩

omit hReordered h' in
/-- A class is placed where its declaration is. -/
theorem class_entry {ref : ClassRef} (hRef : manifest.names.get? ref.name = some (.classRef ref)) :
    ∃ callable, manifest.catalog.get? ref.index = some callable ∧ callable.name = ref.name := by
  by_cases hKey : ref.name ∈ (entriesOf file).keys
  · obtain ⟨named, hNamed, hMeans⟩ := h.exists_means hKey
    cases hMeans with
    | named _ _ hName => cases hRef.symm.trans hName
    | record _ hBuild hName _ _ hEntry _ =>
        cases hRef.symm.trans hName
        exact ⟨_, hEntry, (Plan.name_of_build hBuild).trans (name_of_type hNamed)⟩
  · rw [h.other hKey] at hRef
    obtain ⟨_, kind, he, _, hEntry, hKind⟩ := builtin_class hRef
    cases he
    exact ⟨_, h.builtin hEntry, hKind⟩

omit hReordered h' in
/-- Two classes are not placed at the same position. -/
theorem name_eq_of_index {a b : ClassRef} (ha : manifest.names.get? a.name = some (.classRef a))
    (hb : manifest.names.get? b.name = some (.classRef b)) (hIndex : a.index = b.index) :
    a.name = b.name := by
  obtain ⟨callable, hEntry, hName⟩ := class_entry h ha
  obtain ⟨callable', hEntry', hName'⟩ := class_entry h hb
  rw [← hIndex, hEntry] at hEntry'
  cases hEntry'
  exact hName.symm.trans hName'

/-- Classes of the same name stand for each other. -/
theorem correspondence (hLines : WholeLines file) :
    Correspondence manifest.catalog manifest'.catalog (Counterpart manifest manifest') where
  name hSame := hSame.1
  unique hSame hSame' := by
    obtain ⟨hName, ha, hb⟩ := hSame
    obtain ⟨hName', ha', hb'⟩ := hSame'
    constructor
    · intro hIndex
      rw [← hName, name_eq_of_index h ha ha' hIndex, hName', hb'] at hb
      cases hb
      rfl
    · intro hIndex
      rw [hName, name_eq_of_index h' hb hb' hIndex, ← hName', ha'] at ha
      cases ha
      rfl
  declaration {a b} hSame := by
    obtain ⟨hName, ha, hb⟩ := hSame
    by_cases hKey : a.name ∈ (entriesOf file).keys
    · obtain ⟨named, hNamed, hMeans⟩ := h.exists_means hKey
      cases hMeans with
      | named _ _ hAlias => cases ha.symm.trans hAlias
      | record =>
          obtain ⟨ref, ref', callable, callable', ⟨hRef, _, hEntry⟩, ⟨hRef', _, hEntry'⟩, _,
            hRelated⟩ := record_related hReordered h h' hLines hNamed
          cases ha.symm.trans hRef
          rw [hName] at hRef'
          cases hb.symm.trans hRef'
          exact ⟨callable, callable', hEntry, hEntry', hRelated⟩
    · have hOther : b.name ∉ (entriesOf file').keys := fun hm =>
        hKey (hName ▸ hReordered.keys.mem_iff.mpr hm)
      rw [h.other hKey] at ha
      rw [h'.other hOther, ← hName, ha] at hb
      cases hb
      obtain ⟨_, kind, he, _, hEntry, _⟩ := builtin_class ha
      cases he
      exact ⟨_, _, h.builtin hEntry, h'.builtin hEntry, ⟨rfl, rfl, rfl, .none, .none, rfl, rfl⟩⟩

end

/-- The order of the declarations does not matter. One file resolves exactly if the
other does. Then every name that is declared means the same, and the same schema is
extracted for every class and function, or none for the same reason. -/
theorem resolve_reordered (hReordered : Reordered file file') (hLines : WholeLines file) :
    ((∃ manifest, resolve file = .ok manifest) ↔ ∃ manifest', resolve file' = .ok manifest') ∧
    ∀ manifest manifest', resolve file = .ok manifest → resolve file' = .ok manifest' →
      Correspondence manifest.catalog manifest'.catalog (Counterpart manifest manifest') ∧
      (∀ name ∈ (entriesOf file).keys, ∃ t t', manifest.names.get? name = some t ∧
        manifest'.names.get? name = some t' ∧ Matches (Counterpart manifest manifest') t t') ∧
      ∀ name ∈ file.types.map (·.name) ++ file.functions.map (·.name), ∃ callable callable',
        manifest.callable? name = some callable ∧ manifest'.callable? name = some callable' ∧
          Extractor.standard.extract manifest.catalog callable =
            Extractor.standard.extract manifest'.catalog callable' := by
  constructor
  · constructor
    · intro hResolve
      obtain ⟨manifest, hResolve⟩ := hResolve
      exact exists_resolve hReordered hLines (complete_of_resolve hResolve)
    · intro hResolve
      obtain ⟨manifest', hResolve⟩ := hResolve
      exact exists_resolve hReordered.symm (hReordered.wholeLines hLines)
        (complete_of_resolve hResolve)
  · intro manifest manifest' hResolve hResolve'
    have h := complete_of_resolve hResolve
    have h' := complete_of_resolve hResolve'
    have hSame := correspondence hReordered h h' hLines
    have hExtract {callable callable' : Callable}
        (hRelated : callable.Related (Matches (Counterpart manifest manifest')) callable') :=
      Extractor.extract_eq Extractor.typeless_standard hSame hRelated
    refine ⟨hSame, fun name hName => ?_, fun name hName => ?_⟩
    · obtain ⟨_, _, hMeans⟩ := h.exists_means hName
      obtain ⟨t, ht⟩ := hMeans.known
      obtain ⟨t', hMatches, ht'⟩ := @exists_of_rel_some _ (lookup manifest.names)
        (lookup manifest'.names) name t ht (rel_names hReordered h h' hLines name)
      exact ⟨t, t', ht, ht', hMatches⟩
    · rcases List.mem_append.mp hName with hm | hm
      · obtain ⟨decl, hDecl, rfl⟩ := List.mem_map.mp hm
        have hNamed : (entriesOf file).get? decl.name = some (.type decl) :=
          (Entries.get?_eq_some_iff h.declarable.distinct _ _).mpr
            (List.mem_append_right _ (List.mem_map.mpr ⟨decl, hDecl, rfl⟩))
        obtain ⟨ref, ref', callable, callable', ⟨_, hRef, hEntry⟩, ⟨_, hRef', hEntry'⟩, hRelated,
          _⟩ := record_related hReordered h h' hLines hNamed
        exact ⟨callable, callable', callable?_eq_some_iff.mpr ⟨ref, hRef, hEntry⟩,
          callable?_eq_some_iff.mpr ⟨ref', hRef', hEntry'⟩, hExtract hRelated⟩
      · obtain ⟨decl, hDecl, rfl⟩ := List.mem_map.mp hm
        obtain ⟨callable, callable', hCallable, hCallable', hRelated⟩ :=
          function_related hReordered h h' hLines hDecl
        exact ⟨callable, callable', hCallable, hCallable', hExtract hRelated⟩

end

/-- Two classes change places. An alias, and a function that names the alias and both classes, stand
where they were. -/
theorem move_reordered :
    let point : TypeDecl := ⟨"Point", none, [⟨"x", some "int", none, .positionalOrKeyword⟩]⟩
    let size : TypeDecl := ⟨"Size", none, [⟨"width", some "float", none, .positionalOrKeyword⟩]⟩
    let move : FunctionDecl :=
      ⟨"move", none, [⟨"by", some "Size | Path", none, .positionalOrKeyword⟩], some "Point"⟩
    let file : ManifestFile := ⟨[("Path", "list[Point]")], [point, size], [move]⟩
    let file' : ManifestFile := ⟨[("Path", "list[Point]")], [size, point], [move]⟩
    Reordered file file' ∧ WholeLines file ∧ ∃ manifest manifest',
      resolve file = .ok manifest ∧ resolve file' = .ok manifest' ∧ ∃ callable callable',
        manifest.callable? "move" = some callable ∧ manifest'.callable? "move" = some callable' ∧
          Extractor.standard.extract manifest.catalog callable =
            Extractor.standard.extract manifest'.catalog callable' := by
  intro point size move file file'
  have hReordered : Reordered file file' := ⟨.refl _, .swap _ _ _, .refl _⟩
  have hLines : WholeLines file := fun entry hEntry text hText => unbroken_of_not_mem
    ((by decide : ∀ entry ∈ entriesOf file, ∀ text ∈ entry.2.texts, '\n' ∉ text.toList)
      entry hEntry text hText)
  have hResolves : (resolve file).isOk = true := by cbv
  cases hResolve : resolve file with
  | error _ =>
      rw [hResolve] at hResolves
      cases hResolves
  | ok manifest =>
      obtain ⟨hBoth, hSame⟩ := resolve_reordered hReordered hLines
      obtain ⟨manifest', hResolve'⟩ := hBoth.mp ⟨manifest, hResolve⟩
      refine ⟨hReordered, hLines, manifest, manifest', rfl, hResolve', ?_⟩
      exact (hSame manifest manifest' hResolve hResolve').2.2 "move" (by decide)

end ToolSchema.Manifest
