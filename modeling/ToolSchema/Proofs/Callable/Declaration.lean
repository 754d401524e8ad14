import Mathlib.Data.List.Nodup
import ToolSchema.Callable.Declaration
import ToolSchema.Proofs.Except

/-! What the check of a declaration establishes about its parameters. -/
namespace ToolSchema

open Except (bind_eq_ok_iff pure_eq_ok_iff)

namespace Signature

/-- Parameters have different names, and those that are passed more freely come
later. -/
structure WellFormed (signature : Signature) : Prop where
  distinct : (signature.params.map (·.name)).Nodup
  ordered : signature.params.Pairwise fun earlier later => earlier.passing.rank ≤ later.passing.rank

/-- The check goes along the parameters with the names that it has seen and the last way of passing,
and both go into the induction. -/
theorem checkParams_ok {owner : String} {seen : List String} {previous : Passing}
    {params : List Parameter} (h : checkParams owner seen previous params = .ok ()) :
    (∀ param ∈ params, param.name ∉ seen ∧ previous.rank ≤ param.passing.rank) ∧
      WellFormed ⟨params, none⟩ := by
  induction params generalizing seen previous with
  | nil => exact ⟨nofun, ⟨.nil, .nil⟩⟩
  | cons param more ih =>
      rw [checkParams] at h
      split at h
      · cases h
      · next hNew =>
        split at h
        · cases h
        · next hRank =>
          obtain ⟨hMore, hDistinct, hOrdered⟩ := ih h
          have hFirst : param.name ∉ seen := by simpa using hNew
          have hPrevious : previous.rank ≤ param.passing.rank := Nat.le_of_not_lt hRank
          refine ⟨List.forall_mem_cons.mpr ⟨⟨hFirst, hPrevious⟩, fun later hm => ?_⟩, ?_, ?_⟩
          · obtain ⟨hSeen, hLater⟩ := hMore later hm
            exact ⟨fun hOld => hSeen (List.mem_cons_of_mem _ hOld), Nat.le_trans hPrevious hLater⟩
          · refine List.nodup_cons.mpr ⟨fun hm => ?_, hDistinct⟩
            obtain ⟨later, hLater, hSame⟩ := List.mem_map.mp hm
            exact (hMore later hLater).1 (hSame ▸ List.mem_cons_self)
          · exact List.pairwise_cons.mpr ⟨fun later hm => (hMore later hm).2, hOrdered⟩

theorem check_ok {signature : Signature} {owner : String} (h : signature.check owner = .ok ()) :
    signature.WellFormed := by
  obtain ⟨_, hDistinct, hOrdered⟩ := checkParams_ok h
  exact ⟨hDistinct, hOrdered⟩

/-- Leaving out the receiver keeps the names different and their order. -/
theorem WellFormed.withoutReceiver {signature : Signature} (h : signature.WellFormed) :
    signature.withoutReceiver.WellFormed :=
  ⟨h.distinct.sublist (List.filter_sublist.map _), h.ordered.sublist List.filter_sublist⟩

/-- The names of the parameters that can be passed by name, in order. -/
def named (signature : Signature) : List String :=
  (signature.params.filter fun param => param.passing != .positionalOnly).map (·.name)

/-- Where the positional-only parameters come first, separating them changes nothing. -/
theorem filter_append_filter {params : List Parameter}
    (h : params.Pairwise fun earlier later => earlier.passing.rank ≤ later.passing.rank) :
    (params.filter fun param => param.passing == .positionalOnly) ++
      (params.filter fun param => param.passing != .positionalOnly) = params := by
  induction params with
  | nil => rfl
  | cons param more ih =>
      rw [List.pairwise_cons] at h
      by_cases hFirst : param.passing = .positionalOnly
      · rw [List.filter_cons_of_pos (by simpa using hFirst),
          List.filter_cons_of_neg (by simpa using hFirst), List.cons_append, ih h.2]
      · have hNone : (more.filter fun param => param.passing == .positionalOnly) = [] := by
          refine List.filter_eq_nil_iff.mpr fun later hm hLater => hFirst ?_
          have hRank := h.1 later hm
          rw [eq_of_beq hLater] at hRank
          cases hPassing : param.passing with
          | positionalOnly => rfl
          | _ =>
              rw [hPassing] at hRank
              exact absurd hRank (by decide)
        have hAll := ih h.2
        rw [hNone, List.nil_append] at hAll
        rw [List.filter_cons_of_neg (by simpa using hFirst),
          List.filter_cons_of_pos (by simpa using hFirst), hNone, hAll, List.nil_append]

/-- Parameters that can be passed by position only come first. -/
theorem WellFormed.names_eq {signature : Signature} (h : signature.WellFormed) :
    signature.params.map (·.name) = signature.positionalOnly ++ signature.named := by
  rw [positionalOnly, named, ← List.map_append, filter_append_filter h.ordered]

/-- The receiver is missing among the positional-only names if it was there. -/
theorem positionalOnly_withoutReceiver (signature : Signature) :
    signature.withoutReceiver.positionalOnly =
      signature.positionalOnly.filter (· != receiver) := by
  rw [positionalOnly, positionalOnly, withoutReceiver, List.filter_map, List.filter_comm]
  rfl

theorem receiver_not_mem_withoutReceiver (signature : Signature) :
    receiver ∉ signature.withoutReceiver.params.map (·.name) := by
  intro h
  obtain ⟨param, hm, hName⟩ := List.mem_map.mp h
  exact absurd hName (by simpa using (List.mem_filter.mp hm).2)

end Signature

namespace Declaration

/-- A declaration that passes is taken over as it is, with checked signatures
and the constructor of records where none is given. -/
theorem build_ok {declaration : Declaration} {callable : Callable}
    (h : declaration.build = .ok callable) :
    callable = {
      name := declaration.name
      kind := declaration.kind
      doc := declaration.doc
      signature := declaration.signature
      initializer := declaration.initializer
      construct := declaration.construct.getD
        (.record declaration.name declaration.positionalNames)
      backing := declaration.backing } ∧
    (∀ signature, declaration.signature = some signature → signature.WellFormed) ∧
    ∀ init, declaration.initializer = some init → init.signature.WellFormed := by
  obtain ⟨name, kind, doc, signature, initializer, construct, backing⟩ := declaration
  by_cases hBlank : Text.allBlank name.toList = true
  · simp [build, hBlank, bind, Except.bind, throw, throwThe, MonadExceptOf.throw] at h
  · simp only [build, if_neg hBlank] at h
    cases signature with
    | none =>
        cases initializer with
        | none => exact ⟨(pure_eq_ok_iff.mp h).symm, nofun, nofun⟩
        | some init =>
            obtain ⟨_, hInit, h⟩ := bind_eq_ok_iff.mp h
            refine ⟨(pure_eq_ok_iff.mp h).symm, nofun, fun _ he => ?_⟩
            cases he
            exact Signature.check_ok hInit
    | some signature =>
        obtain ⟨_, hSignature, h⟩ := bind_eq_ok_iff.mp h
        have hOwn : ∀ own, some signature = some own → own.WellFormed := by
          intro own he
          cases he
          exact Signature.check_ok hSignature
        cases initializer with
        | none => exact ⟨(pure_eq_ok_iff.mp h).symm, hOwn, nofun⟩
        | some init =>
            obtain ⟨_, hInit, h⟩ := bind_eq_ok_iff.mp h
            refine ⟨(pure_eq_ok_iff.mp h).symm, hOwn, fun _ he => ?_⟩
            cases he
            exact Signature.check_ok hInit

end Declaration

/-- The callable passed the checks of its declaration. -/
def Callable.Built (callable : Callable) : Prop :=
  ∃ declaration : Declaration, declaration.build = .ok callable

namespace Callable

/-- A built-in class is declared without parameters. -/
theorem built_temporal (kind : TemporalKind) : (Callable.temporal kind).Built := by
  refine ⟨⟨kind.name, .classDef, none, none, none, some (.temporal kind),
    some (.temporal kind)⟩, ?_⟩
  cases kind <;> rfl

/-- Leaving out the receiver keeps what the check established. -/
theorem Built.wellFormed {callable : Callable} (h : callable.Built) {signature : Signature}
    (hSignature : callable.callSignature? = some signature) : signature.WellFormed := by
  obtain ⟨⟨name, kind, doc, own, initializer, construct, backing⟩, hBuild⟩ := h
  obtain ⟨rfl, hOwn, hInit⟩ := Declaration.build_ok hBuild
  cases own with
  | some own =>
      cases hSignature
      exact hOwn _ rfl
  | none =>
      cases initializer with
      | none => cases hSignature
      | some init =>
          cases hSignature
          exact (hInit init rfl).withoutReceiver

end Callable

end ToolSchema
