import ToolSchema.Proofs.Extraction.Failure
import ToolSchema.Proofs.Extraction.WellFormed

/-! The fragment of types that have schemas, described without conversion: what every
place in a normal form has to look like. -/
namespace ToolSchema

namespace TypeExpr

/-- The type is the other one or stands somewhere in it. -/
inductive IsPart (part : TypeExpr) : TypeExpr → Prop
  | refl : IsPart part part
  | named {name : String} {target : TypeExpr} (h : IsPart part target) :
      IsPart part (.alias name target)
  | tagged {inner : TypeExpr} {tags : List String} (h : IsPart part inner) :
      IsPart part (.tagged inner tags)
  | arm {arms : List TypeExpr} {arm : TypeExpr} (hm : arm ∈ arms) (h : IsPart part arm) :
      IsPart part (.union arms)
  | arg {origin : Origin} {args : List TypeExpr} {arg : TypeExpr} (hm : arg ∈ args)
      (h : IsPart part arg) : IsPart part (.generic origin args)

/-- A list has one argument and a dictionary two, there are no sets and no bytes, and the
mark for repetition stands behind the item of a tuple only. -/
def Orderly : TypeExpr → Prop
  | .generic .list args => args.length = 1 ∧ .ellipsis ∉ args
  | .generic .dict args => args.length = 2 ∧ .ellipsis ∉ args
  | .generic .tuple args => .ellipsis ∈ args → ∃ item, item ≠ .ellipsis ∧ args = [item, .ellipsis]
  | .generic .set _ => False
  | .generic .frozenSet _ => False
  | .generic .bytes _ => False
  | .generic _ args => .ellipsis ∉ args
  | .union arms => .ellipsis ∉ arms
  | _ => True

/-- Every part is in order, and the mark for repetition does not stand alone. -/
structure InFragment (type : TypeExpr) : Prop where
  unmarked : type ≠ .ellipsis
  orderly {part : TypeExpr} (h : part.IsPart type) : part.Orderly

/-- The fragment from the outside in, for unions and for containers. -/
theorem inFragment_union_iff {arms : List TypeExpr} :
    InFragment (.union arms) ↔ ∀ arm ∈ arms, arm.InFragment := by
  constructor
  · intro h arm hm
    refine ⟨?_, fun hPart => h.orderly (.arm hm hPart)⟩
    rintro rfl
    exact h.orderly .refl hm
  · intro h
    refine ⟨nofun, fun hPart => ?_⟩
    cases hPart with
    | refl => exact fun hm => (h _ hm).unmarked rfl
    | arm hm hPart => exact (h _ hm).orderly hPart

theorem inFragment_generic_iff {origin : Origin} {args : List TypeExpr} :
    InFragment (.generic origin args) ↔
      Orderly (.generic origin args) ∧ ∀ arg ∈ args, arg ≠ .ellipsis → arg.InFragment := by
  constructor
  · intro h
    exact ⟨h.orderly .refl, fun arg hm hMark => ⟨hMark, fun hPart => h.orderly (.arg hm hPart)⟩⟩
  · intro h
    refine ⟨nofun, fun hPart => ?_⟩
    cases hPart with
    | refl => exact h.1
    | @arg _ _ arg hm hPart =>
        by_cases hMark : arg = .ellipsis
        · subst hMark
          cases hPart
          trivial
        · exact (h.2 arg hm hMark).orderly hPart

/-- Every supported form is one of the fragment. -/
theorem inFragment_of_supported {type : TypeExpr} (h : type.Supported) : type.InFragment := by
  induction h with
  | union _ ih => exact inFragment_union_iff.mpr ih
  | list _ ih =>
      refine inFragment_generic_iff.mpr ⟨⟨rfl, fun hm => ?_⟩, fun arg hm _ => ?_⟩
      · exact ih.unmarked (List.mem_singleton.mp hm).symm
      · exact List.mem_singleton.mp hm ▸ ih
  | repeated _ ih =>
      refine inFragment_generic_iff.mpr ⟨fun _ => ⟨_, ih.unmarked, rfl⟩, fun arg hm hMark => ?_⟩
      rcases List.mem_pair.mp hm with rfl | rfl
      · exact ih
      · exact absurd rfl hMark
  | tuple _ ih =>
      exact inFragment_generic_iff.mpr ⟨fun hm => absurd rfl (ih _ hm).unmarked,
        fun arg hm _ => ih arg hm⟩
  | dict _ _ ihKey ihValue =>
      refine inFragment_generic_iff.mpr ⟨⟨rfl, fun hm => ?_⟩, fun arg hm _ => ?_⟩
      · rcases List.mem_pair.mp hm with he | he
        · exact ihKey.unmarked he.symm
        · exact ihValue.unmarked he.symm
      · rcases List.mem_pair.mp hm with rfl | rfl
        · exact ihKey
        · exact ihValue
  | _ =>
      refine ⟨nofun, fun hPart => ?_⟩
      cases hPart
      trivial

/-- In a normal form there is nothing else than what is described: names and metadata are gone. -/
theorem supported_of_inFragment {type : TypeExpr} (hType : type.Canonical true)
    (h : type.InFragment) : type.Supported := by
  induction hType with
  | union _ _ ih => exact .union fun arm hm => ih arm hm (inFragment_union_iff.mp h arm hm)
  | @generic origin args hOrigin _ ih =>
      obtain ⟨hHere, hArgs⟩ := inFragment_generic_iff.mp h
      have hArg {arg : TypeExpr} (hm : arg ∈ args) (hMark : arg ≠ .ellipsis) : arg.Supported :=
        ih arg hm (hArgs arg hm hMark)
      have hUnmarked (hMark : .ellipsis ∉ args) {arg : TypeExpr} (hm : arg ∈ args) :
          arg.Supported :=
        hArg hm fun he => hMark (he ▸ hm)
      cases origin with
      | list =>
          obtain ⟨item, rfl⟩ := List.length_eq_one_iff.mp hHere.1
          exact .list (hUnmarked hHere.2 (.head _))
      | tuple =>
          by_cases hMark : .ellipsis ∈ args
          · obtain ⟨item, hItem, rfl⟩ := hHere hMark
            exact .repeated (hArg (.head _) hItem)
          · exact .tuple fun item hm => hUnmarked hMark hm
      | dict =>
          obtain ⟨key, value, rfl⟩ := List.length_eq_two.mp hHere.1
          exact .dict (hUnmarked hHere.2 (.head _)) (hUnmarked hHere.2 (.tail _ (.head _)))
      | set => exact hHere.elim
      | frozenSet => exact hHere.elim
      | bytes => exact hHere.elim
      | _ => cases hOrigin rfl
  | ellipsis => exact absurd rfl h.unmarked
  | _ => constructor

/-- Among normal forms the fragment is what conversion supports. -/
theorem supported_normalize_iff (type : TypeExpr) :
    (type.normalize true).Supported ↔ (type.normalize true).InFragment :=
  ⟨inFragment_of_supported, supported_of_inFragment (canonical_normalize true type)⟩

/-- No part of a normal form is a name, has tags or is abstract. -/
theorem Canonical.isPart {type part : TypeExpr} (hType : type.Canonical true)
    (h : part.IsPart type) : part.Canonical true := by
  induction h with
  | refl => exact hType
  | named _ _ => cases hType
  | tagged _ _ => cases hType
  | arm hm _ ih =>
      cases hType with
      | union _ hArms => exact ih (hArms _ hm)
  | arg hm _ ih =>
      cases hType with
      | generic _ hArgs => exact ih (hArgs _ hm)

end TypeExpr

namespace Extractor

variable {extractor : Extractor} {catalog : Catalog} {callable : Callable} {error : Error}

/-! Strategies -/

/-- The strategy for dates, times and durations supplies the schema of the class. -/
def Knows (extractor : Extractor) (callable : Callable) : Prop :=
  .temporal ∈ extractor ∧ ∃ kind, callable.backing = some (.temporal kind)

/-- The strategy claims what it knows. -/
theorem AtMostTemporal.claim_eq_none_iff (h : extractor.AtMostTemporal) (callable : Callable) :
    extractor.claim callable = .ok none ↔ ¬ Knows extractor callable := by
  cases extractor with
  | nil => exact ⟨fun _ hKnows => List.not_mem_nil hKnows.1, fun _ => rfl⟩
  | cons strategy more =>
      have hFirst : .temporal ∈ strategy :: more := by
        rw [h strategy (.head _)]
        exact .head _
      rcases h.claim_cases callable with hUnclaimed | ⟨kind, hBacking, hClaimed⟩
      · refine ⟨fun _ hKnows => ?_, fun _ => hUnclaimed⟩
        obtain ⟨kind, hBacking⟩ := hKnows.2
        rw [h strategy (.head _)] at hUnclaimed
        simp only [claim, Strategy.temporal, hBacking] at hUnclaimed
        cases hUnclaimed
      · refine ⟨fun hUnclaimed => ?_, fun hUnknown => absurd ⟨hFirst, kind, hBacking⟩ hUnknown⟩
        cases hClaimed.symm.trans hUnclaimed

theorem AtMostTemporal.claim_ne_error (h : extractor.AtMostTemporal) (callable : Callable)
    (error : Error) : extractor.claim callable ≠ .error error := by
  rcases h.claim_cases callable with hUnclaimed | ⟨_, _, hClaimed⟩
  · rw [hUnclaimed]
    exact nofun
  · rw [hClaimed]
    exact nofun

/-! Classes -/

/-- The schema of the class is supplied, or it can be put together from a signature. -/
def Admissible (extractor : Extractor) (callable : Callable) : Prop :=
  Knows extractor callable ∨ callable.callSignature?.isSome = true ∧
    ∀ type ∈ callable.types, (type.normalize true).InFragment

/-- Extraction comes to the callable on its way through the type. -/
def ReachedFrom (extractor : Extractor) (catalog : Catalog) (type : TypeExpr) (other : Callable) :
    Prop :=
  ∃ ref first, (type.normalize true).NamesClass ref ∧ catalog.get? ref.index = some first ∧
    Reaches extractor catalog first other

/-- Conversion of the type comes to the part, in the type itself or in a type of a
callable that is reached. Every type is brought into its normal form first. -/
def ComesTo (extractor : Extractor) (catalog : Catalog) (type part : TypeExpr) : Prop :=
  ∃ written, (written = type ∨
    ∃ other, ReachedFrom extractor catalog type other ∧ written ∈ other.types) ∧
      part.IsPart (written.normalize true)

theorem ComesTo.canonical {type part : TypeExpr} (h : ComesTo extractor catalog type part) :
    part.Canonical true := by
  obtain ⟨written, _, hPart⟩ := h
  exact (TypeExpr.canonical_normalize true written).isPart hPart

/-- What is fit for extraction is admissible. Documentation is all that makes a difference. -/
theorem Fit.admissible (hTemporal : extractor.AtMostTemporal) (h : Fit extractor callable) :
    Admissible extractor callable := by
  rcases h with ⟨schema, hClaimed⟩ | ⟨-, hSignature, -, hTypes⟩
  · refine .inl (not_not.mp fun hUnknown => ?_)
    cases hClaimed.symm.trans ((hTemporal.claim_eq_none_iff callable).mpr hUnknown)
  · exact .inr ⟨hSignature, fun type hm => type.supported_normalize_iff.mp (hTypes type hm)⟩

/-- The failure of an admissible callable can only be in its documentation. -/
theorem Arises.unreadable (hTemporal : extractor.AtMostTemporal)
    (h : Arises extractor callable error) (hAdmissible : Admissible extractor callable) :
    error = .unreadableDocumentation := by
  have hSigned (hUnclaimed : extractor.claim callable = .ok none) :=
    hAdmissible.resolve_left ((hTemporal.claim_eq_none_iff callable).mp hUnclaimed)
  cases h with
  | strategy hClaim => exact absurd hClaim (hTemporal.claim_ne_error callable error)
  | signature hUnclaimed hSignature =>
      have hSome := (hSigned hUnclaimed).1
      rw [hSignature] at hSome
      cases hSome
  | documentation _ _ => rfl
  | @type hUnclaimed type hm _ hFault =>
      have hFragment := (hSigned hUnclaimed).2 type hm
      exact absurd (type.supported_normalize_iff.mpr hFragment) hFault.not_supported

/-- The failure arose at a callable that is reached, and documentation without a reading is
no more than passed on. -/
theorem Trail.exists_arises (h : Trail extractor catalog callable error) : ∃ other cause,
    Reaches extractor catalog callable other ∧ Arises extractor other cause ∧
      (error = .unreadableDocumentation ↔ cause = .unreadableDocumentation) := by
  induction h with
  | here h => exact ⟨_, _, .refl, h, .rfl⟩
  | through hStep _ ih =>
      obtain ⟨other, cause, hReaches, hArises, hSame⟩ := ih
      exact ⟨other, cause, .head hStep hReaches, hArises,
        Error.within_eq_unreadableDocumentation_iff.trans hSame⟩

section

variable {among : ClassRef → Prop} {type : TypeExpr} (hTemporal : extractor.AtMostTemporal)
  (hGrounded : catalog.Grounded among)
  (hNames : ∀ ref, (type.normalize true).NamesClass ref → among ref)

include hGrounded hNames

/-- What stops the conversion of a type: a fault of its own or a failure at a class that
is reached. -/
theorem arises_of_extractType (h : extractor.extractType catalog type = .error error) :
    (∃ fault, (type.normalize true).Faulty fault ∧ error = .declaration fault) ∨
      ∃ other cause, ReachedFrom extractor catalog type other ∧ Arises extractor other cause ∧
        (error = .unreadableDocumentation ↔ cause = .unreadableDocumentation) := by
  refine (blames_of_convert h).imp_right fun hClass => ?_
  obtain ⟨ref, hRef, hClass⟩ := hClass
  obtain ⟨first, inner, hFirst, rfl, hTrail⟩ :=
    trail_of_classSchema hGrounded (hNames ref hRef) hClass
  obtain ⟨other, cause, hReaches, hArises, hSame⟩ := hTrail.exists_arises
  exact ⟨other, cause, ⟨ref, first, hRef, hFirst, hReaches⟩, hArises,
    Error.within_eq_unreadableDocumentation_iff.trans hSame⟩

include hTemporal

/-- If documentation can be read, a type has a schema just when it is in the fragment and what it
reaches is admissible. -/
theorem exists_extractType_iff
    (hReadable : extractor.extractType catalog type ≠ .error .unreadableDocumentation) :
    (∃ schema, extractor.extractType catalog type = .ok schema) ↔
      (type.normalize true).InFragment ∧
        ∀ other, ReachedFrom extractor catalog type other → Admissible extractor other := by
  constructor
  · intro h
    obtain ⟨hForm, hClasses⟩ := exists_convert_iff.mp h
    refine ⟨type.supported_normalize_iff.mp hForm, fun other hReached => ?_⟩
    obtain ⟨ref, first, hRef, hFirst, hReaches⟩ := hReached
    have hFit := (exists_classSchema_iff hGrounded (hNames ref hRef) hFirst).mp (hClasses ref hRef)
    exact (hFit other hReaches).admissible hTemporal
  · intro h
    cases hOutcome : extractor.extractType catalog type with
    | ok schema => exact ⟨schema, rfl⟩
    | error error =>
        rcases arises_of_extractType hGrounded hNames hOutcome with
          ⟨_, hFault, _⟩ | ⟨other, cause, hReached, hArises, hSame⟩
        · exact absurd (type.supported_normalize_iff.mpr h.1) hFault.not_supported
        · have hCause := hArises.unreadable hTemporal (h.2 other hReached)
          rw [hOutcome, hSame.mpr hCause] at hReadable
          exact absurd rfl hReadable

/-- Where reading documentation fails, a callable that is reached has such documentation. -/
theorem exists_unreadable_of_extractType
    (h : extractor.extractType catalog type = .error .unreadableDocumentation) :
    ∃ other, ReachedFrom extractor catalog type other ∧ Hints.ofCallable other = none := by
  rcases arises_of_extractType hGrounded hNames h with
    ⟨_, _, he⟩ | ⟨other, cause, hReached, hArises, hSame⟩
  · cases he
  · cases hSame.mp rfl
    cases hArises with
    | strategy hClaim => exact absurd hClaim (hTemporal.claim_ne_error other _)
    | documentation _ hHints => exact ⟨other, hReached, hHints⟩

end

/-- Unless some documentation on the way has no reading, a type is converted exactly if
its normal form is in the fragment and every class that is reached is admissible. No
name, no tags and no abstract container is ever come to. -/
theorem extractType_iff_inFragment {among : ClassRef → Prop} {type : TypeExpr}
    (hTemporal : extractor.AtMostTemporal) (hGrounded : catalog.Grounded among)
    (hNames : ∀ ref, (type.normalize true).NamesClass ref → among ref) :
    (extractor.extractType catalog type ≠ .error .unreadableDocumentation →
      ((∃ schema, extractor.extractType catalog type = .ok schema) ↔
        (type.normalize true).InFragment ∧
          ∀ other, ReachedFrom extractor catalog type other → Admissible extractor other)) ∧
    (extractor.extractType catalog type = .error .unreadableDocumentation →
      ∃ other, ReachedFrom extractor catalog type other ∧ Hints.ofCallable other = none) ∧
    ∀ part, ComesTo extractor catalog type part →
      (∀ name target, part ≠ .alias name target) ∧ (∀ inner tags, part ≠ .tagged inner tags) ∧
        ∀ origin args, part = .generic origin args → origin.isAbstract = false := by
  refine ⟨exists_extractType_iff hTemporal hGrounded hNames,
    exists_unreadable_of_extractType hTemporal hGrounded hNames, fun part hComes => ?_⟩
  have hPart := hComes.canonical
  refine ⟨?_, ?_, ?_⟩
  · rintro name target rfl
    cases hPart
  · rintro inner tags rfl
    cases hPart
  · rintro origin args rfl
    cases hPart with
    | generic hOrigin _ => exact hOrigin rfl

/-- A sequence of places, each of which is absent or of a class that asks for a built-in one. -/
theorem stops_admissible :
    let stop : Callable := {
      name := "Stop"
      kind := .classDef
      doc := none
      signature := none
      initializer := some ⟨none, ⟨[⟨"self", .positionalOrKeyword, none, false⟩,
        ⟨"day", .positionalOrKeyword, some (.classRef ⟨"date", 0⟩), false⟩], some .null⟩⟩
      construct := .record "Stop" []
      backing := none }
    let stops : TypeExpr :=
      .generic .sequence [.alias "Place" (.union [.classRef ⟨"Stop", 1⟩, .null])]
    (stops.normalize true).InFragment ∧
      ∀ other, ReachedFrom standard [stop, .temporal .date] stops other →
        Admissible standard other := by
  intro stop stops
  have hGrounded : Catalog.Grounded [stop, .temporal .date] fun ref => ref.index < 2 := by
    intro ref hRef
    have hCases : ref.index = 0 ∨ ref.index = 1 := by omega
    rcases hCases with hIndex | hIndex
    · refine ⟨.temporal .date, by rw [hIndex]; rfl, fun older hAsks => ?_⟩
      obtain ⟨type, hm, _⟩ := hAsks
      cases hm
    · refine ⟨stop, by rw [hIndex]; rfl, fun older hAsks => ?_⟩
      obtain ⟨type, hm, hNames⟩ := hAsks
      rcases List.mem_pair.mp (show type ∈ [.classRef ⟨"date", 0⟩, .null] from hm) with rfl | rfl
      · cases hNames
        exact ⟨by decide, hIndex ▸ Nat.zero_lt_one⟩
      · cases hNames
  have hNames (ref : ClassRef) (hRef : (stops.normalize true).NamesClass ref) : ref.index < 2 := by
    rw [show stops.normalize true = .generic .list [.union [.classRef ⟨"Stop", 1⟩, .null]] from rfl]
      at hRef
    obtain ⟨arg, hArg, hRef⟩ := TypeExpr.namesClass_generic_iff.mp hRef
    cases List.mem_singleton.mp hArg
    obtain ⟨arm, hArm, hRef⟩ := TypeExpr.namesClass_union_iff.mp hRef
    rcases List.mem_pair.mp hArm with rfl | rfl
    · cases hRef
      decide
    · cases hRef
  have hOk : standard.extractType [stop, .temporal .date] stops = .ok _ := rfl
  obtain ⟨hIff, -, -⟩ := extractType_iff_inFragment atMostTemporal_standard hGrounded hNames
  exact (hIff (by rw [hOk]; exact nofun)).mp ⟨_, hOk⟩

end Extractor

end ToolSchema
