import ToolSchema.Proofs.Manifest.Declarations

/-! The search for an order of the declared names. On every map of names it ends,
either with an order in which each name stands behind those that it refers to, or
with names that refer to each other in a circle. -/
namespace ToolSchema.Manifest

open Relation (TransGen ReflTransGen)

variable {declared : Entries Named} {name target : String}

/-- The scan finds the second name in a text of the first one. -/
def Cites (declared : Entries Named) (name target : String) : Prop :=
  ∃ named, declared.get? name = some named ∧
    ∃ text ∈ named.texts, target ∈ references declared.keys text

/-- The graph has an edge where the scan finds a name in a text. -/
theorem edge_iff_cites : Edge (graphOf declared) name target ↔ Cites declared name target := by
  simp [Edge, get?_graphOf, Cites]

theorem edge_eq_cites (declared : Entries Named) : Edge (graphOf declared) = Cites declared :=
  funext fun _ => funext fun _ => propext edge_iff_cites

theorem mem_keys_of_mem_references {text : String} (h : target ∈ references declared.keys text) :
    target ∈ declared.keys :=
  List.contains_iff_mem.mp (List.mem_filter.mp h).2

theorem Cites.mem_keys (h : Cites declared name target) : target ∈ declared.keys := by
  obtain ⟨_, _, _, _, hTarget⟩ := h
  exact mem_keys_of_mem_references hTarget

theorem mem_keys_of_cites_trans (hName : name ∈ declared.keys)
    (h : ReflTransGen (Cites declared) name target) : target ∈ declared.keys := by
  induction h with
  | refl => exact hName
  | tail _ hCites _ => exact hCites.mem_keys

/-! The end of the search -/

/-- The search for one name with calls nested at most so deep, text by text. It has
no result if a deeper call is needed or if a name is looked up that is not declared. -/
def visitWithin (declared : Entries Named) :
    Nat → List String → List String → String → ExceptT (List String) Option (List String)
  | 0, _, _, _ => .mk none
  | depth + 1, way, order, name =>
    if order.contains name then pure order
    else if way.contains name then throw (way.dropWhile (· != name) ++ [name])
    else match declared.get? name with
      | none => .mk none
      | some named => do
        let order ← named.texts.foldlM (fun order text =>
          (references declared.keys text).foldlM
            (visitWithin declared depth (way ++ [name])) order) order
        return order ++ [name]

/-- Going through several names is going through them one after the other. -/
theorem visitAll_eq_foldlM (graph : Graph) (way order names : List String) :
    visitAll graph way order names = names.foldlM (visit graph way) order := by
  induction names generalizing order with
  | nil => rw [visitAll]; rfl
  | cons name more ih =>
      rw [visitAll, List.foldlM_cons]
      exact congrArg _ (funext ih)

/-- Texts with several references each, one after the other, are all of the references one after the
other. -/
theorem foldlM_flatMap {m : Type → Type} [Monad m] [LawfulMonad m] {α β γ : Type}
    (step : γ → β → m γ) (f : α → List β) (items : List α) (start : γ) :
    (items.flatMap f).foldlM step start =
      items.foldlM (fun state item => (f item).foldlM step state) start := by
  induction items generalizing start with
  | nil => rfl
  | cons item items ih =>
      rw [List.flatMap_cons, List.foldlM_append, List.foldlM_cons]
      exact congrArg _ (funext ih)

/-- A loop has a result if all its steps have one. -/
theorem foldlM_mk_some {ε α β : Type} {f : β → α → ExceptT ε Option β} {g : β → α → Except ε β}
    {items : List α} (h : ∀ item ∈ items, ∀ state, f state item = .mk (some (g state item)))
    (start : β) : items.foldlM f start = .mk (some (items.foldlM g start)) := by
  induction items generalizing start with
  | nil => rfl
  | cons item items ih =>
      rw [List.forall_mem_cons] at h
      rw [List.foldlM_cons, List.foldlM_cons, h.1 start]
      cases g start item with
      | error e => rfl
      | ok state => exact ih h.2 state

/-- The names that are not on the way yet bound the depth that is needed. -/
theorem visitWithin_eq_visit {depth : Nat} {way : List String}
    (hDepth : unvisited (graphOf declared) way < depth) (hName : name ∈ declared.keys)
    (order : List String) :
    visitWithin declared depth way order name =
      .mk (some (visit (graphOf declared) way order name)) := by
  induction depth generalizing way order name with
  | zero => cases hDepth
  | succ depth ih =>
      obtain ⟨named, hNamed⟩ := Option.isSome_iff_exists.mp
        ((Entries.get?_isSome_iff declared name).mpr hName)
      have hFound : (graphOf declared).get? name =
          some (named.texts.flatMap (references declared.keys)) := by
        rw [get?_graphOf, hNamed]
        rfl
      by_cases hOld : order.contains name = true
      · rw [visitWithin, if_pos hOld, visit, if_pos hOld]
        rfl
      by_cases hMet : way.contains name = true
      · rw [visitWithin, if_neg hOld, if_pos hMet, visit, if_neg hOld, dif_pos hMet]
        rfl
      have hDeeper : unvisited (graphOf declared) (way ++ [name]) < depth :=
        Nat.lt_of_lt_of_le (unvisited_lt hFound hMet) (Nat.le_of_lt_succ hDepth)
      have hTargets : (named.texts.flatMap (references declared.keys)).foldlM
          (visitWithin declared depth (way ++ [name])) order =
            .mk (some (visitAll (graphOf declared) (way ++ [name]) order
              (named.texts.flatMap (references declared.keys)))) := by
        rw [visitAll_eq_foldlM]
        refine foldlM_mk_some (fun target hTarget state => ih hDeeper ?_ state) order
        obtain ⟨text, _, hTarget⟩ := List.mem_flatMap.mp hTarget
        exact mem_keys_of_mem_references hTarget
      rw [visitWithin, if_neg hOld, if_neg hMet, hNamed, visit_of_found hOld hMet hFound]
      rw [foldlM_flatMap] at hTargets
      simp only [hTargets]
      cases visitAll (graphOf declared) (way ++ [name]) order
        (named.texts.flatMap (references declared.keys)) <;> rfl

/-- The search needs no deeper calls than there are names, and looks up no other names. -/
theorem search_ends (declared : Entries Named) :
    declared.keys.foldlM (visitWithin declared (declared.length + 1) []) [] =
      .mk (some (resolutionOrder (graphOf declared))) := by
  have hDepth : unvisited (graphOf declared) [] < declared.length + 1 := by
    refine Nat.lt_succ_of_le ((List.length_filter_le _ _).trans (Nat.le_of_eq ?_))
    exact List.length_map _
  rw [resolutionOrder, visitAll_eq_foldlM, keys_graphOf]
  exact foldlM_mk_some (fun name hName state => visitWithin_eq_visit hDepth hName state) []

/-! The result of the search -/

/-- Every declared name stands in the order once, behind all names that it cites. -/
structure TopologicalOrder (declared : Entries Named) (order : List String) : Prop where
  nodup : order.Nodup
  mem_iff : ∀ name, name ∈ order ↔ name ∈ declared.keys
  behind : ∀ front name back, order = front ++ name :: back →
    ∀ target, Cites declared name target → target ∈ front

/-- An order in which every name stands behind what it refers to has each name once, and has all of
them. -/
theorem topologicalOrder_of_ok {order : List String}
    (h : resolutionOrder (graphOf declared) = .ok order) : TopologicalOrder declared order := by
  have hVisited := order_of_resolutionOrder h
  rw [keys_graphOf] at hVisited
  refine ⟨hVisited.ready.nodup, fun name => ⟨fun hName => ?_, hVisited.visited name⟩, ?_⟩
  · obtain hm | ⟨start, hStart, hPath⟩ := hVisited.reached name hName
    · cases hm
    · rw [edge_eq_cites] at hPath
      exact mem_keys_of_cites_trans hStart hPath
  · intro front name back hSplit target hCites
    exact (hSplit ▸ hVisited.ready).mem_front (edge_iff_cites.mpr hCites)

/-- The search ends on every map of names. It gives an order if and only if no name cites
itself, directly or through others, and the order is a topological one. Otherwise the names of
a circle are reported, each of which cites the next. -/
theorem resolutionOrder_sorts (declared : Entries Named) :
    ((∃ order, resolutionOrder (graphOf declared) = .ok order) ↔
        ∀ name, ¬ TransGen (Cites declared) name name) ∧
      (∀ order, resolutionOrder (graphOf declared) = .ok order →
        TopologicalOrder declared order) ∧
      (∀ names, resolutionOrder (graphOf declared) = .error names → ∃ first inner,
        names = first :: inner ++ [first] ∧ names.IsChain (Cites declared) ∧
          (ManifestFault.cycle names).message =
            "cyclic type reference: " ++ " -> ".intercalate (first :: inner ++ [first])) ∧
      declared.keys.foldlM (visitWithin declared (declared.length + 1) []) [] =
        .mk (some (resolutionOrder (graphOf declared))) := by
  have hCircle (names : List String) (h : resolutionOrder (graphOf declared) = .error names) :
      IsCycle (graphOf declared) names := cycle_of_resolutionOrder h
  rw [← edge_eq_cites]
  refine ⟨⟨fun h => ?_, fun hNone => ?_⟩, fun order => topologicalOrder_of_ok, ?_,
    search_ends declared⟩
  · obtain ⟨order, hOrder⟩ := h
    have hVisited := order_of_resolutionOrder hOrder
    exact hVisited.ready.no_circle hVisited.visited
  · cases hResult : resolutionOrder (graphOf declared) with
    | ok order => exact ⟨order, rfl⟩
    | error names =>
        obtain ⟨name, hCycle⟩ := (hCircle names hResult).exists_trans
        exact absurd hCycle (hNone name)
  · intro names hNames
    obtain ⟨first, inner, rfl⟩ := (hCircle names hNames).closed
    exact ⟨first, inner, rfl, (hCircle _ hNames).chain, rfl⟩

-- The constant 'A' is no reference, so only B and C have to come before A.
example : resolutionOrder (graphOf [("A", .alias "list[B] | Literal['A']"), ("B", .alias "C"),
    ("C", .alias "int")]) = .ok ["C", "B", "A"] := by cbv

end ToolSchema.Manifest
