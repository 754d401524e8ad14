import Mathlib.Data.List.Chain
import Mathlib.Logic.Relation
import ToolSchema.Manifest.References
import ToolSchema.Proofs.Entries
import ToolSchema.Proofs.Except

/-! The order of names. The search puts every name after those that it refers to,
or it finds names that refer to each other in a circle. -/
namespace ToolSchema.Manifest

open Except (bind_eq_ok_iff bind_eq_error_iff map_eq_error_iff)
open Relation (TransGen ReflTransGen)

variable {graph : Graph}

/-- The first name refers to the second one. -/
def Edge (graph : Graph) (name target : String) : Prop :=
  ∃ targets, graph.get? name = some targets ∧ target ∈ targets

/-- Every name stands once, behind all names that it refers to. -/
inductive ReadyOrder (graph : Graph) : List String → Prop
  | nil : ReadyOrder graph []
  | snoc {order : List String} {name : String} (h : ReadyOrder graph order) (hNew : name ∉ order)
      (hTargets : ∀ target, Edge graph name target → target ∈ order) :
      ReadyOrder graph (order ++ [name])

/-- In such an order, all that a name refers to is there. -/
theorem ReadyOrder.closed {order : List String} (h : ReadyOrder graph order) {name target : String}
    (hName : name ∈ order) (hEdge : Edge graph name target) : target ∈ order := by
  induction h with
  | nil => cases hName
  | snoc _ _ hTargets ih =>
      apply List.mem_append_left
      rcases List.mem_append.mp hName with hm | hm
      · exact ih hm
      · rw [List.mem_singleton.mp hm] at hEdge
        exact hTargets target hEdge

theorem ReadyOrder.closed_trans {order : List String} (h : ReadyOrder graph order)
    {name target : String} (hName : name ∈ order) (hPath : ReflTransGen (Edge graph) name target) :
    target ∈ order := by
  induction hPath with
  | refl => exact hName
  | tail _ hEdge ih => exact h.closed ih hEdge

/-- No name in such an order leads back to itself. -/
theorem ReadyOrder.acyclic {order : List String} (h : ReadyOrder graph order) {name : String}
    (hName : name ∈ order) : ¬ TransGen (Edge graph) name name := by
  induction h with
  | nil => cases hName
  | @snoc order last hOrder hNew hTargets ih =>
      rcases List.mem_append.mp hName with hm | hm
      · exact ih hm
      · rw [List.mem_singleton.mp hm]
        intro hCycle
        obtain ⟨target, hEdge, hPath⟩ := TransGen.head'_iff.mp hCycle
        exact hNew (hOrder.closed_trans (hTargets target hEdge) hPath)

/-- If all names are in such an order, there is no circle. -/
theorem ReadyOrder.no_circle {order : List String} (h : ReadyOrder graph order)
    (hAll : ∀ name ∈ graph.keys, name ∈ order) (name : String) :
    ¬ TransGen (Edge graph) name name := by
  intro hCycle
  obtain ⟨_, ⟨targets, hTargets, _⟩, _⟩ := TransGen.head'_iff.mp hCycle
  have hKey : name ∈ graph.keys := (Entries.get?_isSome_iff _ _).mp (by rw [hTargets]; rfl)
  exact h.acyclic (hAll name hKey) hCycle

theorem ReadyOrder.nodup {order : List String} (h : ReadyOrder graph order) : order.Nodup := by
  induction h with
  | nil => exact .nil
  | snoc _ hNew _ ih => simpa using ih.concat hNew

/-- What a name refers to comes before it in the order. -/
theorem ReadyOrder.mem_front {front back : List String} {name target : String}
    (h : ReadyOrder graph (front ++ name :: back)) (hEdge : Edge graph name target) :
    target ∈ front := by
  generalize hOrder : front ++ name :: back = order at h
  induction h generalizing back with
  | nil => simp at hOrder
  | @snoc order last hReady hNew hTargets ih =>
      rcases List.eq_nil_or_concat back with rfl | ⟨back, other, rfl⟩
      · obtain ⟨rfl, hLast⟩ := List.append_inj' hOrder rfl
        cases hLast
        exact hTargets target hEdge
      · have hWhole : (front ++ name :: back) ++ [other] = order ++ [last] := by
          simpa using hOrder
        exact ih (List.append_inj' hWhole rfl).1

/-! Success -/

/-- What the search has done when it went through some names. -/
structure Visited (graph : Graph) (way order names order' : List String) : Prop where
  ready : ReadyOrder graph order'
  keeps : ∀ name ∈ order, name ∈ order'
  visited : ∀ name ∈ names, name ∈ order'
  avoids : ∀ name ∈ way, name ∉ order'
  reached : ∀ name ∈ order', name ∈ order ∨ ∃ start ∈ names, ReflTransGen (Edge graph) start name

/-- The search through some names and then through more. -/
theorem Visited.trans {way order mid order' names more : List String}
    (h : Visited graph way order names mid) (h' : Visited graph way mid more order') :
    Visited graph way order (names ++ more) order' where
  ready := h'.ready
  keeps name hName := h'.keeps name (h.keeps name hName)
  visited name hName := by
    rcases List.mem_append.mp hName with hm | hm
    · exact h'.keeps name (h.visited name hm)
    · exact h'.visited name hm
  avoids := h'.avoids
  reached name hName := by
    rcases h'.reached name hName with hm | ⟨start, hStart, hPath⟩
    · rcases h.reached name hm with hm | ⟨start, hStart, hPath⟩
      · exact .inl hm
      · exact .inr ⟨start, List.mem_append_left _ hStart, hPath⟩
    · exact .inr ⟨start, List.mem_append_right _ hStart, hPath⟩

/-- A name comes into the order when all its targets are there. -/
theorem Visited.snoc {way order order' targets : List String} {name : String}
    (h : Visited graph (way ++ [name]) order targets order')
    (hTargets : ∀ target, Edge graph name target ↔ target ∈ targets) (hFresh : name ∉ way) :
    Visited graph way order [name] (order' ++ [name]) where
  ready := .snoc h.ready (h.avoids name (by simp)) fun target hEdge =>
    h.visited target ((hTargets target).mp hEdge)
  keeps other hOther := List.mem_append_left _ (h.keeps other hOther)
  visited other hOther := List.mem_append_right _ hOther
  avoids other hOther hm := by
    rcases List.mem_append.mp hm with hm | hm
    · exact h.avoids other (List.mem_append_left _ hOther) hm
    · exact hFresh (List.mem_singleton.mp hm ▸ hOther)
  reached other hOther := by
    rcases List.mem_append.mp hOther with hm | hm
    · rcases h.reached other hm with hm | ⟨start, hStart, hPath⟩
      · exact .inl hm
      · exact .inr ⟨name, .head _, hPath.head ((hTargets start).mpr hStart)⟩
    · exact .inr ⟨name, .head _, List.mem_singleton.mp hm ▸ .refl⟩

theorem visited_nil {way order : List String} (hReady : ReadyOrder graph order)
    (hWay : ∀ name ∈ way, name ∉ order) : Visited graph way order [] order :=
  ⟨hReady, fun _ h => h, fun _ h => absurd h List.not_mem_nil, hWay, fun _ h => .inl h⟩

theorem edge_iff {name : String} {targets : List String} (h : graph.get? name = some targets)
    (target : String) : Edge graph name target ↔ target ∈ targets := by
  simp [Edge, h]

/-- A name that is met for the first time comes behind what it refers to. -/
theorem visit_of_found {way order targets : List String} {name : String}
    (hNew : ¬ order.contains name = true) (hFresh : ¬ way.contains name = true)
    (hFound : graph.get? name = some targets) :
    visit graph way order name =
      (visitAll graph (way ++ [name]) order targets).map (· ++ [name]) := by
  rw [visit, if_neg hNew, dif_neg hFresh]
  split
  · next hNone => cases hNone.symm.trans hFound
  · next hTargets =>
    cases hFound.symm.trans hTargets
    rfl

/-- No name of the way comes into the order before the search is back at it. -/
theorem visited_of_ok (graph : Graph) :
    (∀ way order name, ReadyOrder graph order → (∀ n ∈ way, n ∉ order) → ∀ order',
      visit graph way order name = .ok order' → Visited graph way order [name] order') ∧
    (∀ way order names, ReadyOrder graph order → (∀ n ∈ way, n ∉ order) → ∀ order',
      visitAll graph way order names = .ok order' → Visited graph way order names order') := by
  have hAvoid {way order : List String} {name : String} (hNew : ¬ order.contains name = true)
      (hWay : ∀ n ∈ way, n ∉ order) : ∀ n ∈ way ++ [name], n ∉ order := by
    rw [List.forall_mem_append]
    exact ⟨hWay, by simpa using hNew⟩
  apply visit.mutual_induct graph
  case case1 =>
    intro way order name hOld hReady hWay order' h
    rw [visit, if_pos hOld] at h
    cases h
    exact { visited_nil hReady hWay with
      visited := by simpa using hOld
      reached := fun _ h => .inl h }
  case case2 =>
    intro way order name hNew hFresh hReady hWay order' h
    rw [visit, if_neg hNew, dif_pos hFresh] at h
    cases h
  case case3 =>
    intro way order name hNew hFresh hNone hReady hWay order' h
    have hEmpty (target : String) : Edge graph name target ↔ target ∈ [] := by simp [Edge, hNone]
    rw [visit, if_neg hNew, dif_neg hFresh] at h
    split at h
    · cases h
      exact (visited_nil hReady (hAvoid hNew hWay)).snoc hEmpty (by simpa using hFresh)
    · next hFound => cases hNone.symm.trans hFound
  case case4 =>
    intro way order name hNew hFresh targets hFound ih hReady hWay order' h
    rw [visit_of_found hNew hFresh hFound] at h
    cases hAll : visitAll graph (way ++ [name]) order targets with
    | error e => rw [hAll] at h; cases h
    | ok mid =>
        rw [hAll] at h
        cases h
        exact (ih hReady (hAvoid hNew hWay) mid hAll).snoc (edge_iff hFound) (by simpa using hFresh)
  case case5 =>
    intro way order hReady hWay order' h
    rw [visitAll] at h
    cases h
    exact visited_nil hReady hWay
  case case6 =>
    intro way order name more ihFirst ihMore hReady hWay order' h
    rw [visitAll] at h
    obtain ⟨mid, hFirst, hMore⟩ := bind_eq_ok_iff.mp h
    have hVisited := ihFirst hReady hWay mid hFirst
    exact hVisited.trans (ihMore mid hVisited.ready hVisited.avoids order' hMore)

/-! Failure -/

/-- Names that refer to each other in a circle, with the first one repeated at the
end. -/
structure IsCycle (graph : Graph) (names : List String) : Prop where
  chain : names.IsChain (Edge graph)
  closed : ∃ first inner, names = first :: inner ++ [first]

/-- In a circle, a name refers to itself by way of the others. -/
theorem IsCycle.exists_trans {names : List String} (h : IsCycle graph names) :
    ∃ name, TransGen (Edge graph) name name := by
  obtain ⟨first, inner, rfl⟩ := h.closed
  have hPairs := (h.chain.imp fun _ _ => TransGen.single).pairwise
  exact ⟨first, List.rel_of_pairwise_cons hPairs (by simp)⟩

/-- The way to a name is a chain of references. A name that is met on its own way closes the
circle. -/
theorem cycle_of_error (graph : Graph) :
    (∀ way order name, (way ++ [name]).IsChain (Edge graph) → ∀ names,
      visit graph way order name = .error names → IsCycle graph names) ∧
    (∀ way order targets, (∀ target ∈ targets, (way ++ [target]).IsChain (Edge graph)) → ∀ names,
      visitAll graph way order targets = .error names → IsCycle graph names) := by
  apply visit.mutual_induct graph
  case case1 =>
    intro way order name hOld hChain names h
    rw [visit, if_pos hOld] at h
    cases h
  case case2 =>
    intro way order name hNew hFresh hChain names h
    rw [visit, if_neg hNew, dif_pos hFresh] at h
    cases h
    rw [List.contains_iff_mem] at hFresh
    obtain ⟨before, inner, rfl, hBefore⟩ := List.eq_append_cons_of_mem hFresh
    have hDrop : (before ++ name :: inner).dropWhile (· != name) = name :: inner := by
      have hSkip : ∀ other ∈ before, (other != name) = true := by
        intro other hOther
        exact bne_iff_ne.mpr fun he => hBefore (he ▸ hOther)
      rw [List.dropWhile_append_of_pos hSkip, List.dropWhile_cons_of_neg (by simp)]
    rw [hDrop]
    rw [List.append_assoc] at hChain
    exact ⟨hChain.right_of_append, name, inner, rfl⟩
  case case3 =>
    intro way order name hNew hFresh hNone hChain names h
    rw [visit, if_neg hNew, dif_neg hFresh] at h
    split at h
    · cases h
    · next hFound => cases hNone.symm.trans hFound
  case case4 =>
    intro way order name hNew hFresh targets hFound ih hChain names h
    rw [visit_of_found hNew hFresh hFound] at h
    apply ih _ names (map_eq_error_iff.mp h)
    intro target hTarget
    rw [List.append_assoc]
    exact List.isChain_split.mpr ⟨hChain, List.isChain_pair.mpr ⟨targets, hFound, hTarget⟩⟩
  case case5 =>
    intro way order hChain names h
    rw [visitAll] at h
    cases h
  case case6 =>
    intro way order name more ihFirst ihMore hChain names h
    rw [visitAll] at h
    rw [List.forall_mem_cons] at hChain
    rcases bind_eq_error_iff.mp h with h | ⟨mid, _, h⟩
    · exact ihFirst hChain.1 names h
    · exact ihMore mid hChain.2 names h

/-! The result -/

/-- The search starts with nothing on the way and nothing in the order. -/
theorem order_of_resolutionOrder {order : List String} (h : resolutionOrder graph = .ok order) :
    Visited graph [] [] graph.keys order :=
  (visited_of_ok graph).2 [] [] graph.keys .nil (by simp) order h

theorem cycle_of_resolutionOrder {names : List String} (h : resolutionOrder graph = .error names) :
    IsCycle graph names :=
  (cycle_of_error graph).2 [] [] graph.keys (fun _ _ => .singleton _) names h

end ToolSchema.Manifest
