import ToolSchema.Proofs.Manifest.Resolution
import ToolSchema.Proofs.TypeExpr.Matching

/-! What resolution leaves behind. Every declared name has the meaning that its
declaration gives it among the names that it asks for, and classes name only
older ones. -/
namespace ToolSchema.Manifest

open Except
open TypeExpr (Matches)
open TypeExpr.Grammar (scalars)

/-- Types that differ in their classes only are related part by part. -/
theorem isCongruence_matches {r : ClassRef → ClassRef → Prop} : IsCongruence (Matches r) where
  scalar h := by
    have hTable : ∀ entry ∈ scalars, Matches r entry.2 entry.2 := by
      simp only [scalars, List.forall_mem_cons]
      exact ⟨.any, .null, .null, .int, .float, .str, .bool, List.forall_mem_nil _⟩
    exact hTable _ h
  ellipsis := .ellipsis
  literal _ := .literal _
  tagged h tags := .tagged tags h
  union _ := TypeExpr.matches_union
  generic origin h := TypeExpr.matches_generic origin h

/-- A built-in name means the class of that name. -/
theorem builtin_class {name : String} {t : TypeExpr} (h : Catalog.builtinNames.get? name = some t) :
    ∃ ref kind, t = .classRef ref ∧ ref.name = name ∧
      Catalog.builtin.get? ref.index = some (Callable.temporal kind) ∧ kind.name = name := by
  have hm := Entries.mem_of_get? h
  simp only [Catalog.builtinNames, TemporalKind.all, List.mapIdx_cons, List.mapIdx_nil,
    List.mem_cons, List.not_mem_nil, or_false] at hm
  rcases hm with hm | hm | hm | hm <;> cases hm
  · exact ⟨_, .date, rfl, rfl, rfl, rfl⟩
  · exact ⟨_, .dateTime, rfl, rfl, rfl, rfl⟩
  · exact ⟨_, .time, rfl, rfl, rfl, rfl⟩
  · exact ⟨_, .duration, rfl, rfl, rfl, rfl⟩

/-- An entry for a record class comes from a declaration of one. -/
theorem mem_types {file : ManifestFile} {name : String} {decl : TypeDecl}
    (h : (entriesOf file).get? name = some (.type decl)) : decl ∈ file.types ∧ decl.name = name := by
  rcases List.mem_append.mp (Entries.mem_of_get? h) with hm | hm
  · obtain ⟨_, _, he⟩ := List.mem_map.mp hm
    cases he
  · obtain ⟨_, hDecl, he⟩ := List.mem_map.mp hm
    cases he
    exact ⟨hDecl, rfl⟩

theorem name_of_type {file : ManifestFile} {name : String} {decl : TypeDecl}
    (h : (entriesOf file).get? name = some (.type decl)) : decl.name = name := (mem_types h).2

/-! Meanings -/

/-- The same class, which is placed before the bound under its own name. -/
def Placed (manifest : Manifest) (bound : Nat) (a b : ClassRef) : Prop :=
  a = b ∧ a.index < bound ∧ manifest.names.get? a.name = some (.classRef a)

/-- Where the names in the texts were looked up, they meant what they mean now. -/
def Sees (manifest : Manifest) (known : Entries TypeExpr) (texts : List String) : Prop :=
  ∀ text ∈ texts, RelatedOn Eq (lookup known) (lookup manifest.names) (words text.toList)

/-- The name means what its declaration says. -/
inductive Means (manifest : Manifest) (name : String) : Named → Prop
  | named {text : String} {known : Entries TypeExpr} {target : TypeExpr}
      (hKnown : Sees manifest known [text])
      (hParse : TypeExpr.parse (lookup known) text = .ok target)
      (hName : manifest.names.get? name = some (.alias name target)) :
      Means manifest name (.alias text)
  | record {decl : TypeDecl} {known : Entries TypeExpr} {ref : ClassRef} {callable : Callable}
      (hKnown : Sees manifest known (Named.type decl).texts)
      (hBuild : decl.plan.build known = .ok callable)
      (hName : manifest.names.get? name = some (.classRef ref)) (hRef : ref.name = name)
      (hCallable : manifest.callables.get? name = some ref)
      (hEntry : manifest.catalog.get? ref.index = some callable)
      (hOlder : callable.Related (Matches (Placed manifest ref.index)) callable) :
      Means manifest name (.type decl)

/-- The second manifest has all of the first one. -/
structure Extends (manifest manifest' : Manifest) : Prop where
  names {name : String} {t : TypeExpr} (h : manifest.names.get? name = some t) :
    manifest'.names.get? name = some t
  callables {name : String} {ref : ClassRef} (h : manifest.callables.get? name = some ref) :
    manifest'.callables.get? name = some ref
  catalog {index : Nat} {callable : Callable} (h : manifest.catalog.get? index = some callable) :
    manifest'.catalog.get? index = some callable

section

variable {manifest manifest' : Manifest}

theorem Extends.refl (manifest : Manifest) : Extends manifest manifest :=
  ⟨fun h => h, fun h => h, fun h => h⟩

theorem Extends.trans {mid : Manifest} (h : Extends manifest mid) (h' : Extends mid manifest') :
    Extends manifest manifest' :=
  ⟨fun hName => h'.names (h.names hName), fun hRef => h'.callables (h.callables hRef),
    fun hEntry => h'.catalog (h.catalog hEntry)⟩

theorem Placed.extend (h : Extends manifest manifest') {bound bound' : Nat} (hBound : bound ≤ bound')
    (a b c : ClassRef) (hPlaced : Placed manifest bound a b) (hPlaced' : Placed manifest bound b c) :
    Placed manifest' bound' a c :=
  ⟨hPlaced.1.trans hPlaced'.1, Nat.lt_of_lt_of_le hPlaced.2.1 hBound, h.names hPlaced.2.2⟩

/-- A name keeps its meaning if the names in its texts do. -/
theorem Means.extend (h : Extends manifest manifest') {name : String} {named : Named}
    (hTexts : ∀ known, Sees manifest known named.texts → Sees manifest' known named.texts)
    (hMeans : Means manifest name named) : Means manifest' name named := by
  cases hMeans with
  | named hKnown hParse hName => exact .named (hTexts _ hKnown) hParse (h.names hName)
  | record hKnown hBuild hName hRef hCallable hEntry hOlder =>
      refine .record (hTexts _ hKnown) hBuild (h.names hName) hRef
        (h.callables hCallable) (h.catalog hEntry) ?_
      exact hOlder.chain (fun _ _ _ hst htu => hst.chain (Placed.extend h le_rfl) htu) hOlder

/-- Adding a new name leaves all others as they were. -/
theorem extends_of_addNamed {name : String} {named : Named}
    (hAdd : addNamed manifest name named = .ok manifest')
    (hType : ∀ decl, named = .type decl → decl.name = name)
    (hName : manifest.names.get? name = none) (hCallable : manifest.callables.get? name = none) :
    Extends manifest manifest' := by
  have hInsert {α : Type} {entries : Entries α} (hNone : entries.get? name = none) (value : α)
      {other : String} {old : α} (h : entries.get? other = some old) :
      (entries.insert name value).get? other = some old := by
    rw [Entries.get?_insert, if_neg, h]
    rintro rfl
    cases hNone.symm.trans h
  match named, hAdd with
  | .alias text, hAdd =>
      obtain ⟨target, _, rfl⟩ := addNamed_alias_eq_ok_iff.mp hAdd
      exact ⟨fun h => hInsert hName _ h, fun h => h, fun h => h⟩
  | .type decl, hAdd =>
      obtain ⟨callable, hBuild, rfl⟩ := addNamed_type_eq_ok_iff.mp hAdd
      have hSame : callable.name = name := (Plan.name_of_build hBuild).trans (hType decl rfl)
      refine ⟨fun h => hInsert hName _ h, fun h => ?_, fun h => Catalog.get?_cons_of_get? h _⟩
      exact hSame ▸ hInsert hCallable _ h

/-- A name that is not asked for changes nothing. -/
theorem Sees.insert {known : Entries TypeExpr} {texts : List String} (h : Sees manifest known texts)
    {name : String} (hName : isIdentifier name = true)
    (hUnasked : ∀ text ∈ texts, name ∉ words text.toList)
    (hNames : ∀ other ≠ name, manifest'.names.get? other = manifest.names.get? other) :
    Sees manifest' known texts := by
  intro text hText path hPath
  have hOther : path ≠ name := by
    rintro rfl
    exact hUnasked text hText (hPath hName)
  rw [lookup, lookup, hNames path hOther]
  exact h text hText path hPath

/-- A reflexive relation on types, for types that may be left out. -/
theorem rel_refl {r : TypeExpr → TypeExpr → Prop} (hr : ∀ t, r t t) (type : Option TypeExpr) :
    Option.Rel r type type := by
  cases type with
  | none => exact .none
  | some t => exact .some (hr t)

theorem sees_self (manifest : Manifest) (texts : List String) :
    Sees manifest manifest.names texts := fun _ _ _ _ => rel_refl Eq.refl _

end

section

variable {r : ClassRef → ClassRef → Prop} {names : Entries TypeExpr}
  (hNames : ∀ name t, names.get? name = some t → Matches r t t)

include hNames

/-- What is looked up among the names of a manifest matches itself. -/
theorem rel_self (path : String) : Option.Rel (Matches r) (lookup names path) (lookup names path) := by
  rw [lookup]
  cases hPath : names.get? path with
  | none => exact .none
  | some t => exact .some (hNames path t hPath)

/-- What is read names no other classes than the names mean. -/
theorem self_matches_of_parse {text : String} {t : TypeExpr}
    (h : TypeExpr.parse (lookup names) text = .ok t) : Matches r t t := by
  obtain ⟨t', hMatches, h'⟩ := parse_related_of_forall isCongruence_matches (rel_self hNames) h
  cases h.symm.trans h'
  exact hMatches

theorem self_related_of_build {plan : Plan} (hStart : plan.start.Related (Matches r) plan.start)
    {callable : Callable} (h : plan.build names = .ok callable) :
    callable.Related (Matches r) callable := by
  obtain ⟨callable', h', hRelated⟩ := Plan.build_related hStart
    (fun _ _ _ => parse_related_of_forall isCongruence_matches (rel_self hNames)) h
  cases h.symm.trans h'
  exact hRelated

end

/-- The names so far have their meanings. -/
structure Resolved (declared : Entries Named) (order : List String) (manifest : Manifest) :
    Prop where
  other {name : String} (h : name ∉ order) :
    manifest.names.get? name = Catalog.builtinNames.get? name
  means {name : String} (hName : name ∈ order) : ∃ named, declared.get? name = some named ∧
    Means manifest name named
  classes {name : String} {t : TypeExpr} (h : manifest.names.get? name = some t) :
    Matches (Placed manifest manifest.catalog.length) t t
  builtin {index : Nat} {callable : Callable} (h : Catalog.builtin.get? index = some callable) :
    manifest.catalog.get? index = some callable
  callables {name : String} (h : name ∈ manifest.callables.keys) :
    name ∈ order ∧ ∃ decl, declared.get? name = some (.type decl)

/-- Before the first name, nothing but the built-in names has a meaning. -/
theorem resolved_empty (declared : Entries Named) : Resolved declared [] empty where
  other _ := rfl
  means h := absurd h List.not_mem_nil
  classes h := by
    obtain ⟨ref, kind, rfl, rfl, hEntry, _⟩ := builtin_class h
    exact .classRef ⟨rfl, Catalog.lt_length_of_get? hEntry, h⟩
  builtin h := h
  callables h := absurd h List.not_mem_nil

/-- A declared name has no meaning of its own. -/
theorem Declarable.not_builtin {names : List String} (h : Declarable names) {name : String}
    (hName : name ∈ names) : Catalog.builtinNames.get? name = none := by
  have hFree := h.free hName
  rw [isBuiltin, Bool.or_eq_false_iff, Bool.or_eq_false_iff] at hFree
  rw [Entries.get?_eq_none_iff, ← Entries.hasKey_iff, hFree.1.1]
  exact Bool.false_ne_true

section

variable {file : ManifestFile} {order : List String} {manifest manifest' : Manifest}

/-- The name that is added gets the meaning of its declaration, among the names that are known
then. -/
theorem means_of_addNamed {name : String} {named : Named}
    (hAdd : addNamed manifest name named = .ok manifest')
    (hType : ∀ decl, named = .type decl → decl.name = name) (hExtends : Extends manifest manifest')
    (hSees : Sees manifest' manifest.names named.texts)
    (hClasses : ∀ {other t}, manifest.names.get? other = some t →
      Matches (Placed manifest manifest.catalog.length) t t) : Means manifest' name named := by
  match named, hAdd with
  | .alias text, hAdd =>
      obtain ⟨target, hParse, rfl⟩ := addNamed_alias_eq_ok_iff.mp hAdd
      exact .named hSees hParse (by rw [Entries.get?_insert, if_pos rfl])
  | .type decl, hAdd =>
      obtain ⟨callable, hBuild, rfl⟩ := addNamed_type_eq_ok_iff.mp hAdd
      have hSame : callable.name = name := (Plan.name_of_build hBuild).trans (hType decl rfl)
      refine .record hSees hBuild (by rw [Entries.get?_insert, if_pos rfl]) hSame ?_ ?_ ?_
      · exact hSame ▸ by rw [register, Entries.get?_insert, if_pos rfl]
      · exact if_pos rfl
      · exact self_related_of_build (fun _ _ h => (hClasses h).chain
          (Placed.extend hExtends le_rfl) (hClasses h)) (decl.start_related _) hBuild

/-- A new class is placed behind all others, and what it names is placed before it. -/
theorem classes_of_addNamed {name : String} {named : Named}
    (hAdd : addNamed manifest name named = .ok manifest')
    (hType : ∀ decl, named = .type decl → decl.name = name) (hExtends : Extends manifest manifest')
    (hClasses : ∀ {other t}, manifest.names.get? other = some t →
      Matches (Placed manifest manifest.catalog.length) t t) {other : String} {t : TypeExpr}
    (h : manifest'.names.get? other = some t) :
    Matches (Placed manifest' manifest'.catalog.length) t t := by
  have hOld {bound : Nat} (hBound : manifest.catalog.length ≤ bound) {other : String} {t : TypeExpr}
      (h : manifest.names.get? other = some t) : Matches (Placed manifest' bound) t t :=
    (hClasses h).chain (Placed.extend hExtends hBound) (hClasses h)
  match named, hAdd with
  | .alias text, hAdd =>
      obtain ⟨target, hParse, rfl⟩ := addNamed_alias_eq_ok_iff.mp hAdd
      rw [Entries.get?_insert] at h
      split at h
      · cases h
        exact .named name (self_matches_of_parse (fun _ _ h => hOld le_rfl h) hParse)
      · exact hOld le_rfl h
  | .type decl, hAdd =>
      obtain ⟨callable, hBuild, rfl⟩ := addNamed_type_eq_ok_iff.mp hAdd
      have hSame : callable.name = name := (Plan.name_of_build hBuild).trans (hType decl rfl)
      rw [Entries.get?_insert] at h
      split at h
      · cases h
        refine .classRef ⟨rfl, Nat.lt_succ_self _, ?_⟩
        rw [Entries.get?_insert]
        exact if_pos hSame.symm
      · exact hOld (Nat.le_succ _) h

/-- Only a record class adds a callable. -/
theorem callables_of_addNamed {name : String} {named : Named}
    (hAdd : addNamed manifest name named = .ok manifest')
    (hType : ∀ decl, named = .type decl → decl.name = name) {other : String}
    (h : other ∈ manifest'.callables.keys) :
    other ∈ manifest.callables.keys ∨ other = name ∧ ∃ decl, named = .type decl := by
  match named, hAdd with
  | .alias text, hAdd =>
      obtain ⟨target, _, rfl⟩ := addNamed_alias_eq_ok_iff.mp hAdd
      exact .inl h
  | .type decl, hAdd =>
      obtain ⟨callable, hBuild, rfl⟩ := addNamed_type_eq_ok_iff.mp hAdd
      have hSame : callable.name = name := (Plan.name_of_build hBuild).trans (hType decl rfl)
      rw [register, ← Entries.get?_isSome_iff, Entries.get?_insert, hSame] at h
      split at h
      · next he => exact .inr ⟨he.symm, decl, rfl⟩
      · exact .inl ((Entries.get?_isSome_iff _ _).mp h)

/-- A further name leaves the others as they are. -/
theorem Resolved.extends (hDeclarable : Declarable (entriesOf file).keys)
    (h : Resolved (entriesOf file) order manifest) {name : String} (hNew : name ∉ order)
    {named : Named} (hNamed : (entriesOf file).get? name = some named)
    (hAdd : addNamed manifest name named = .ok manifest') : Extends manifest manifest' := by
  apply extends_of_addNamed hAdd (fun decl he => name_of_type (he ▸ hNamed))
  · rw [h.other hNew, hDeclarable.not_builtin (Entries.mem_keys (Entries.mem_of_get? hNamed))]
  · exact (Entries.get?_eq_none_iff _ _).mpr fun hm => hNew (h.callables hm).1

/-- One more name, of which all references are resolved already: the step of the induction over the
order. -/
theorem Resolved.snoc (hDeclarable : Declarable (entriesOf file).keys)
    (h : Resolved (entriesOf file) order manifest)
    (hReady : ReadyOrder (graphOf (entriesOf file)) order) {name : String} (hNew : name ∉ order)
    (hTargets : ∀ target, Edge (graphOf (entriesOf file)) name target → target ∈ order)
    {named : Named} (hNamed : (entriesOf file).get? name = some named)
    (hAdd : addNamed manifest name named = .ok manifest') :
    Resolved (entriesOf file) (order ++ [name]) manifest' := by
  have hKey : name ∈ (entriesOf file).keys := Entries.mem_keys (Entries.mem_of_get? hNamed)
  have hType (decl : TypeDecl) (he : named = .type decl) : decl.name = name :=
    name_of_type (he ▸ hNamed)
  have hExtends : Extends manifest manifest' := h.extends hDeclarable hNew hNamed hAdd
  obtain ⟨t, hNames⟩ := names_of_addNamed hAdd
  have hOther (other : String) (hOther : other ≠ name) :
      manifest'.names.get? other = manifest.names.get? other := by
    rw [hNames, Entries.get?_insert, if_neg (Ne.symm hOther)]
  have hUnasked {asking : String} {other : Named} (hAsking : asking = name ∨ asking ∈ order)
      (hOther : (entriesOf file).get? asking = some other) :
      ∀ text ∈ other.texts, name ∉ words text.toList := by
    intro text hText hm
    have hEdge : Edge (graphOf (entriesOf file)) asking name :=
      edge_graphOf_iff.mpr ⟨other, hOther, text, hText, hm, hKey⟩
    rcases hAsking with rfl | hAsking
    · exact hNew (hTargets _ hEdge)
    · exact hNew (hReady.closed hAsking hEdge)
  have hIdentifier := hDeclarable.identifier hKey
  have hMeans : Means manifest' name named :=
    means_of_addNamed hAdd hType hExtends
      ((sees_self manifest _).insert hIdentifier (hUnasked (.inl rfl) hNamed) hOther) h.classes
  constructor
  · intro other hm
    rw [hOther other fun he => hm (by simp [he])]
    exact h.other fun hOld => hm (List.mem_append_left _ hOld)
  · intro other hm
    rcases List.mem_append.mp hm with hm | hm
    · obtain ⟨otherNamed, hOtherNamed, hOtherMeans⟩ := h.means hm
      exact ⟨otherNamed, hOtherNamed, hOtherMeans.extend hExtends fun _ hSees =>
        hSees.insert hIdentifier (hUnasked (.inr hm) hOtherNamed) hOther⟩
    · rw [List.mem_singleton.mp hm]
      exact ⟨named, hNamed, hMeans⟩
  · exact classes_of_addNamed hAdd hType hExtends h.classes
  · exact fun hEntry => hExtends.catalog (h.builtin hEntry)
  · intro other hm
    rcases callables_of_addNamed hAdd hType hm with hm | ⟨rfl, decl, rfl⟩
    · exact ⟨List.mem_append_left _ (h.callables hm).1, (h.callables hm).2⟩
    · exact ⟨by simp, decl, hNamed⟩

/-- Resolution in an order of references gives every name its meaning. -/
theorem resolved_of_addNames (hDeclarable : Declarable (entriesOf file).keys)
    (hReady : ReadyOrder (graphOf (entriesOf file)) order)
    (hKeys : ∀ name ∈ order, name ∈ (entriesOf file).keys)
    (h : addNames (entriesOf file) empty order = .ok manifest) :
    Resolved (entriesOf file) order manifest := by
  induction hReady generalizing manifest with
  | nil =>
      cases h
      exact resolved_empty _
  | @snoc order name hReady hNew hTargets ih =>
      rw [List.forall_mem_append] at hKeys
      rw [addNames_eq_foldlM, List.foldlM_append] at h
      obtain ⟨mid, hFront, h⟩ := bind_eq_ok_iff.mp h
      obtain ⟨manifest', hAdd, hPure⟩ := bind_eq_ok_iff.mp h
      cases hPure
      rw [addName] at hAdd
      split at hAdd
      · next named hNamed =>
        exact (ih hKeys.1 hFront).snoc hDeclarable hReady hNew hTargets hNamed hAdd
      · next hNone =>
        exact absurd (hKeys.2 name (.head _)) ((Entries.get?_eq_none_iff _ _).mp hNone)

/-! Functions -/

theorem callable?_eq_some_iff {name : String} {callable : Callable} :
    manifest.callable? name = some callable ↔ ∃ ref, manifest.callables.get? name = some ref ∧
      manifest.catalog.get? ref.index = some callable :=
  Option.bind_eq_some_iff

theorem Extends.callable? (h : Extends manifest manifest') {name : String} {callable : Callable}
    (hCallable : manifest.callable? name = some callable) :
    manifest'.callable? name = some callable := by
  obtain ⟨ref, hRef, hEntry⟩ := callable?_eq_some_iff.mp hCallable
  exact callable?_eq_some_iff.mpr ⟨ref, h.callables hRef, h.catalog hEntry⟩

/-- All functions were built and added. -/
structure Added (decls : List FunctionDecl) (manifest manifest' : Manifest) : Prop where
  names : manifest'.names = manifest.names
  grown : Extends manifest manifest'
  built {decl : FunctionDecl} (h : decl ∈ decls) : ∃ callable,
    decl.plan.build manifest.names = .ok callable ∧ manifest'.callable? decl.name = some callable
  fresh {decl : FunctionDecl} (h : decl ∈ decls) : decl.name ∉ manifest.callables.keys
  distinct : (decls.map (·.name)).Nodup
  callables {name : String} (h : name ∈ manifest'.callables.keys) :
    name ∈ manifest.callables.keys ∨ name ∈ decls.map (·.name)

/-- One function is added. -/
theorem added_of_addFunction {decl : FunctionDecl} (h : addFunction manifest decl = .ok manifest') :
    Added [decl] manifest manifest' := by
  obtain ⟨hNew, callable, hBuild, rfl⟩ := addFunction_eq_ok_iff.mp h
  have hSame : callable.name = decl.name := Plan.name_of_build hBuild
  constructor
  · rfl
  · refine ⟨fun h => h, fun {name ref} h => ?_, fun h => Catalog.get?_cons_of_get? h _⟩
    rw [register, Entries.get?_insert, if_neg, h]
    rintro rfl
    exact hNew (hSame ▸ Entries.mem_keys (Entries.mem_of_get? h))
  · intro other hm
    rw [List.mem_singleton.mp hm]
    refine ⟨callable, hBuild, callable?_eq_some_iff.mpr ⟨⟨callable.name, _⟩, ?_, if_pos rfl⟩⟩
    rw [register, Entries.get?_insert, if_pos hSame]
  · intro other hm
    rw [List.mem_singleton.mp hm]
    exact hNew
  · exact List.nodup_singleton _
  · intro name hm
    rw [register, ← Entries.get?_isSome_iff, Entries.get?_insert, hSame] at hm
    split at hm
    · next he => exact .inr (by simp [he])
    · exact .inl ((Entries.get?_isSome_iff _ _).mp hm)

/-- Functions that are added in two groups. -/
theorem Added.trans {decls more : List FunctionDecl} {mid : Manifest}
    (h : Added decls manifest mid) (h' : Added more mid manifest') :
    Added (decls ++ more) manifest manifest' := by
  have hKeep {name : String} (hm : name ∈ manifest.callables.keys) : name ∈ mid.callables.keys := by
    obtain ⟨ref, hRef⟩ := Option.isSome_iff_exists.mp ((Entries.get?_isSome_iff _ _).mpr hm)
    exact Entries.mem_keys (Entries.mem_of_get? (h.grown.callables hRef))
  have hAdded {decl : FunctionDecl} (hm : decl ∈ decls) : decl.name ∈ mid.callables.keys := by
    obtain ⟨callable, _, hCallable⟩ := h.built hm
    obtain ⟨ref, hRef, _⟩ := callable?_eq_some_iff.mp hCallable
    exact Entries.mem_keys (Entries.mem_of_get? hRef)
  constructor
  · exact h'.names.trans h.names
  · exact h.grown.trans h'.grown
  · intro decl hm
    rcases List.mem_append.mp hm with hm | hm
    · obtain ⟨callable, hBuild, hCallable⟩ := h.built hm
      exact ⟨callable, hBuild, h'.grown.callable? hCallable⟩
    · obtain ⟨callable, hBuild, hCallable⟩ := h'.built hm
      exact ⟨callable, h.names ▸ hBuild, hCallable⟩
  · intro decl hm
    rcases List.mem_append.mp hm with hm | hm
    · exact h.fresh hm
    · exact fun hOld => h'.fresh hm (hKeep hOld)
  · rw [List.map_append, List.nodup_append]
    refine ⟨h.distinct, h'.distinct, fun name hm other hOther he => ?_⟩
    obtain ⟨decl, hDecl, rfl⟩ := List.mem_map.mp hm
    obtain ⟨decl', hDecl', rfl⟩ := List.mem_map.mp hOther
    exact h'.fresh hDecl' (he ▸ hAdded hDecl)
  · intro name hm
    rw [List.map_append, List.mem_append]
    rcases h'.callables hm with hm | hm
    · exact (h.callables hm).imp_right .inl
    · exact .inr (.inr hm)

/-- Functions do not change what names mean, so their order does not matter for that. -/
theorem added_of_addFunctions {decls : List FunctionDecl}
    (h : decls.foldlM addFunction manifest = .ok manifest') : Added decls manifest manifest' := by
  induction decls generalizing manifest with
  | nil =>
      cases h
      exact ⟨rfl, .refl _, nofun, nofun, .nil, .inl⟩
  | cons decl decls ih =>
      rw [List.foldlM_cons] at h
      obtain ⟨mid, hFirst, hMore⟩ := bind_eq_ok_iff.mp h
      exact (added_of_addFunction hFirst).trans (ih hMore)

/-! The result -/

/-- Everything that the file declares has its meaning. -/
structure Complete (file : ManifestFile) (manifest : Manifest) : Prop where
  declarable : Declarable (entriesOf file).keys
  ordered : ∃ order, ReadyOrder (graphOf (entriesOf file)) order ∧
    ∀ name, name ∈ order ↔ name ∈ (entriesOf file).keys
  other {name : String} (h : name ∉ (entriesOf file).keys) :
    manifest.names.get? name = Catalog.builtinNames.get? name
  means {name : String} {named : Named} (h : (entriesOf file).get? name = some named) :
    Means manifest name named
  builtin {index : Nat} {callable : Callable} (h : Catalog.builtin.get? index = some callable) :
    manifest.catalog.get? index = some callable
  functions {decl : FunctionDecl} (h : decl ∈ file.functions) : ∃ callable,
    decl.plan.build manifest.names = .ok callable ∧ manifest.callable? decl.name = some callable
  distinct : (file.functions.map (·.name)).Nodup
  apart {decl : FunctionDecl} (h : decl ∈ file.functions) (record : TypeDecl) :
    (entriesOf file).get? decl.name ≠ some (.type record)

/-- The order has all declared names and no others. -/
theorem mem_order_iff {declared : Entries Named} {order : List String}
    (h : resolutionOrder (graphOf declared) = .ok order) (name : String) :
    name ∈ order ↔ name ∈ declared.keys := by
  have hVisited := order_of_resolutionOrder h
  rw [keys_graphOf] at hVisited
  constructor
  · intro hm
    rcases hVisited.reached name hm with hm | ⟨start, hStart, hPath⟩
    · cases hm
    · rcases hPath.cases_tail with rfl | ⟨_, _, hEdge⟩
      · exact hStart
      · obtain ⟨_, _, _, _, _, hKey⟩ := edge_graphOf_iff.mp hEdge
        exact hKey
  · exact hVisited.visited name

/-- Resolution gives the names their meanings in an order of their references, and then
adds the functions. -/
theorem stages_of_resolve (h : resolve file = .ok manifest) : ∃ order mid,
    Declarable (entriesOf file).keys ∧ ReadyOrder (graphOf (entriesOf file)) order ∧
      (∀ name, name ∈ order ↔ name ∈ (entriesOf file).keys) ∧
      addNames (entriesOf file) empty order = .ok mid ∧
      Resolved (entriesOf file) order mid ∧ Added file.functions mid manifest := by
  rw [resolve] at h
  obtain ⟨declared, hNames, h⟩ := bind_eq_ok_iff.mp h
  obtain ⟨order, hOrder, h⟩ := bind_eq_ok_iff.mp h
  obtain ⟨mid, hMid, hFunctions⟩ := bind_eq_ok_iff.mp h
  rw [mapError_eq_ok_iff] at hNames hOrder hMid
  obtain ⟨rfl, hDeclarable⟩ := declaredNames_eq_ok_iff.mp hNames
  have hReady := (order_of_resolutionOrder hOrder).ready
  have hMem := mem_order_iff hOrder
  exact ⟨order, mid, hDeclarable, hReady, hMem, hMid,
    resolved_of_addNames hDeclarable hReady (fun name => (hMem name).mp) hMid,
    added_of_addFunctions hFunctions⟩

/-- All of resolution: the stages one after the other, with what each of them leaves for the
next. -/
theorem complete_of_resolve (h : resolve file = .ok manifest) : Complete file manifest := by
  obtain ⟨order, mid, hDeclarable, hReady, hMem, _, hResolved, hAdded⟩ := stages_of_resolve h
  have hMeans {name : String} {named : Named} (h : (entriesOf file).get? name = some named) :
      Means mid name named := by
    obtain ⟨named', hNamed, hMeans⟩ :=
      hResolved.means ((hMem name).mpr (Entries.mem_keys (Entries.mem_of_get? h)))
    cases h.symm.trans hNamed
    exact hMeans
  constructor
  · exact hDeclarable
  · exact ⟨order, hReady, hMem⟩
  · intro name hm
    rw [hAdded.names]
    exact hResolved.other fun hOld => hm ((hMem name).mp hOld)
  · intro name named hNamed
    refine (hMeans hNamed).extend hAdded.grown fun known hSees => ?_
    rw [Sees, hAdded.names]
    exact hSees
  · exact fun hEntry => hAdded.grown.catalog (hResolved.builtin hEntry)
  · intro decl hm
    rw [hAdded.names]
    exact hAdded.built hm
  · exact hAdded.distinct
  · intro decl hm record hNamed
    cases hMeans hNamed with
    | record _ _ _ _ hCallable _ _ =>
        exact hAdded.fresh hm (Entries.mem_keys (Entries.mem_of_get? hCallable))

theorem Extends.length_le (h : Extends manifest manifest') :
    manifest.catalog.length ≤ manifest'.catalog.length := by
  by_contra hShorter
  obtain ⟨callable, hEntry⟩ := Catalog.exists_get?_of_lt (Nat.lt_of_not_le hShorter)
  exact Nat.lt_irrefl _ (Catalog.lt_length_of_get? (h.catalog hEntry))

/-- The classes that names mean are placed under their own names. -/
theorem classes_of_resolve (h : resolve file = .ok manifest) {name : String} {t : TypeExpr}
    (hName : manifest.names.get? name = some t) :
    Matches (Placed manifest manifest.catalog.length) t t := by
  obtain ⟨order, mid, _, _, _, _, hResolved, hAdded⟩ := stages_of_resolve h
  rw [hAdded.names] at hName
  have hClasses := hResolved.classes hName
  exact hClasses.chain (Placed.extend hAdded.grown hAdded.grown.length_le) hClasses

/-- A record class is declared under its own name. -/
theorem Complete.type_entry (h : Complete file manifest) {decl : TypeDecl}
    (hm : decl ∈ file.types) : (entriesOf file).get? decl.name = some (.type decl) :=
  (Entries.get?_eq_some_iff h.declarable.distinct _ _).mpr
    (List.mem_append_right _ (List.mem_map.mpr ⟨decl, hm, rfl⟩))

/-- Every declared record class was built among the names that were known then. -/
theorem Complete.record_built (h : Complete file manifest) {decl : TypeDecl}
    (hm : decl ∈ file.types) : ∃ known callable, decl.plan.build known = .ok callable ∧
      manifest.callable? decl.name = some callable := by
  cases h.means (h.type_entry hm) with
  | record _ hBuild _ _ hRef hEntry _ =>
      exact ⟨_, _, hBuild, callable?_eq_some_iff.mpr ⟨_, hRef, hEntry⟩⟩

/-- Every callable of the manifest is built from a record class or a function of the
file. -/
theorem declared_of_callable? (h : resolve file = .ok manifest) {name : String}
    {callable : Callable} (hCallable : manifest.callable? name = some callable) :
    (∃ decl ∈ file.types, decl.name = name ∧ ∃ known, decl.plan.build known = .ok callable) ∨
      ∃ decl ∈ file.functions, decl.name = name ∧
        decl.plan.build manifest.names = .ok callable := by
  have hComplete := complete_of_resolve h
  obtain ⟨order, mid, _, _, _, _, hResolved, hAdded⟩ := stages_of_resolve h
  obtain ⟨ref, hRef, _⟩ := callable?_eq_some_iff.mp hCallable
  rcases hAdded.callables (Entries.mem_keys (Entries.mem_of_get? hRef)) with hm | hm
  · obtain ⟨_, decl, hNamed⟩ := hResolved.callables hm
    obtain ⟨hDecl, rfl⟩ := mem_types hNamed
    obtain ⟨known, callable', hBuild, hCallable'⟩ := hComplete.record_built hDecl
    cases hCallable.symm.trans hCallable'
    exact .inl ⟨decl, hDecl, rfl, known, hBuild⟩
  · obtain ⟨decl, hDecl, rfl⟩ := List.mem_map.mp hm
    obtain ⟨callable', hBuild, hCallable'⟩ := hComplete.functions hDecl
    cases hCallable.symm.trans hCallable'
    exact .inr ⟨decl, hDecl, rfl, hBuild⟩

end

end ToolSchema.Manifest
