import Mathlib.Data.List.Destutter
import ToolSchema.Proofs.Extraction.Failure

/-! What a failure of extraction tells. Its causes name the callables on a path of
classes down to the declaration where it arose, and the last one is what went wrong
there. -/
namespace ToolSchema

open Except (mapError_eq_error_iff)

namespace Error

/-- The callable that the failure names, if it is one of extraction. -/
def target? : Error → Option String
  | .extraction target _ => some target
  | .noSignature target => some target
  | _ => none

/-- The failure and its causes, the outermost first. -/
def chain : Error → List Error
  | .extraction target cause => .extraction target cause :: cause.chain
  | error => [error]

/-- The callables that the failure and its causes name, the outermost first. -/
def targets (error : Error) : List String := error.chain.filterMap target?

/-- What a failure names itself comes before what its causes name. -/
theorem targets_of_target? {error : Error} {target : String} (h : error.target? = some target) :
    ∃ more, error.targets = target :: more := by
  cases error <;> cases h
  · exact ⟨_, rfl⟩
  · exact ⟨[], rfl⟩

theorem chain_eq_cons (error : Error) : error.chain = error :: error.chain.tail := by
  cases error <;> rfl

/-- The causes end in the given one, and so does what is shown for the failure. -/
structure EndsIn (error cause : Error) : Prop where
  last : error.chain.getLast? = some cause
  causes : error.causes = error.chain.tail.map (·.message)
  message : ∃ front, error.message = front ++ cause.message

/-- A failure that wraps another one ends where that one ends. -/
theorem EndsIn.extraction {error cause : Error} (h : error.EndsIn cause) (target : String) :
    EndsIn (.extraction target error) cause where
  last := by
    rw [chain, List.getLast?_cons, h.last]
    rfl
  causes := by
    rw [Error.causes, h.causes, chain, List.tail_cons, error.chain_eq_cons]
    rfl
  message := by
    obtain ⟨front, hMessage⟩ := h.message
    refine ⟨"Failed to extract schema for " ++ target ++ ": " ++ front, ?_⟩
    rw [String.append_assoc, ← hMessage]
    rfl

end Error

/-! Repeats -/

/-- The names without those that only repeat the one before. -/
def collapse (names : List String) : List String := names.destutter (· ≠ ·)

theorem collapse_cons_self (name : String) (names : List String) :
    collapse (name :: name :: names) = collapse (name :: names) := by
  simp [collapse, List.destutter_cons']

theorem collapse_cons_congr {first name : String} {names names' : List String}
    (h : collapse (name :: names) = collapse (name :: names')) :
    collapse (first :: name :: names) = collapse (first :: name :: names') := by
  by_cases hSame : first = name
  · rw [hSame, collapse_cons_self, collapse_cons_self, h]
  · simpa [collapse, List.destutter_cons', hSame] using h

namespace Extractor

variable {extractor : Extractor} {catalog : Catalog} {callable : Callable} {error : Error}

/-! Strategies -/

/-- Strategies fail in no other way than with faults of declarations. -/
def FailsWithFaults (extractor : Extractor) : Prop :=
  ∀ strategy ∈ extractor, ∀ callable error, strategy.claim callable = .error error →
    ∃ fault, error = .declaration fault

/-- A callable that cannot be claimed has a fault in its declaration. -/
theorem FailsWithFaults.claim (h : extractor.FailsWithFaults)
    (hClaim : extractor.claim callable = .error error) : ∃ fault, error = .declaration fault := by
  induction extractor with
  | nil => cases hClaim
  | cons strategy more ih =>
      rw [FailsWithFaults, List.forall_mem_cons] at h
      rcases Except.bind_eq_error_iff.mp hClaim with hFirst | ⟨claimed, _, hMore⟩
      · exact h.1 callable error hFirst
      · cases claimed with
        | none => exact ih h.2 hMore
        | some _ => cases hMore

/-! Paths -/

/-- The causes of the failure name the callable and what comes on a path of classes
from it, and end in a cause that arose at the last one. -/
structure Explains (extractor : Extractor) (catalog : Catalog) (callable : Callable) (error : Error)
    (path : List Callable) (cause : Error) : Prop where
  linked : (callable :: path).IsChain (Step extractor catalog)
  arises : Arises extractor (path.getLastD callable) cause
  targets : collapse (callable.name :: error.targets) =
    collapse ((callable :: path).map (·.name))
  ends : error.EndsIn cause

/-- A failure that arises at the callable itself has no path to follow. -/
theorem Arises.explains (hStrategies : extractor.FailsWithFaults)
    (h : Arises extractor callable error) (hReadable : error ≠ .unreadableDocumentation) :
    Explains extractor catalog callable error [] error := by
  have hFault {fault : DeclarationFault} (he : error = .declaration fault) :
      Explains extractor catalog callable error [] error := by
    subst he
    exact ⟨.singleton _, h, rfl, rfl, rfl, "", String.empty_append.symm⟩
  cases h with
  | strategy hClaim =>
      obtain ⟨fault, he⟩ := hStrategies.claim hClaim
      exact hFault he
  | signature hUnclaimed hSignature =>
      exact ⟨.singleton _, .signature hUnclaimed hSignature, collapse_cons_self _ _, rfl, rfl, "",
        String.empty_append.symm⟩
  | documentation _ _ => exact absurd rfl hReadable
  | type _ _ _ => exact hFault rfl

/-- A failure of a class, wrapped on its way out: the path gains the class at its front, and the
message a prefix. -/
theorem Explains.through {other : Callable} {path : List Callable} {cause : Error}
    (hStep : Step extractor catalog callable other)
    (h : Explains extractor catalog other error path cause) :
    Explains extractor catalog callable (.extraction other.name error) (other :: path) cause where
  linked := .cons_cons hStep h.linked
  arises := by
    rw [List.getLastD_cons]
    exact h.arises
  targets := collapse_cons_congr h.targets
  ends := h.ends.extraction other.name

/-- By induction along the trail of the failure. -/
theorem Trail.explained (hStrategies : extractor.FailsWithFaults)
    (h : Trail extractor catalog callable error) (hReadable : error ≠ .unreadableDocumentation) :
    ∃ path cause, Explains extractor catalog callable error path cause := by
  induction h with
  | here h => exact ⟨[], _, h.explains hStrategies hReadable⟩
  | @through callable other inner hStep _ ih =>
      -- Only documentation without a reading is not wrapped on its way out.
      have hInner : inner ≠ .unreadableDocumentation := fun he =>
        hReadable (Error.within_eq_unreadableDocumentation_iff.mpr he)
      obtain ⟨path, cause, hPath⟩ := ih hInner
      rw [Error.within_eq_extraction hInner]
      exact ⟨other :: path, cause, hPath.through hStep⟩

/-! The callable itself -/

/-- A failure is wrapped unless it names the callable already. -/
theorem named_cases (name : String) (h : error ≠ .unreadableDocumentation) :
    error.target? = some name ∧ named name error = error ∨
      named name error = .extraction name error := by
  have hWrapped : error.within name = .extraction name error := Error.within_eq_extraction h name
  cases error with
  | extraction target cause =>
      by_cases hSame : target = name
      · exact .inl ⟨congrArg some hSame, if_pos hSame⟩
      · exact .inr ((if_neg hSame).trans hWrapped)
  | noSignature target =>
      by_cases hSame : target = name
      · exact .inl ⟨congrArg some hSame, if_pos hSame⟩
      · exact .inr ((if_neg hSame).trans hWrapped)
  | _ => exact .inr hWrapped

/-- Every failure of extraction names the callable. Its causes name, apart from repeats,
the callable and the classes on a path of type references from it down to the
declaration where the failure arose. They end in what went wrong there, and the
message ends with what that says. -/
theorem extract_error_path {among : ClassRef → Prop} (hStrategies : extractor.FailsWithFaults)
    (hGrounded : catalog.Grounded among) (hAsks : ∀ ref, callable.Asks ref → among ref)
    (h : extractor.extract catalog callable = .error error)
    (hReadable : error ≠ .unreadableDocumentation) :
    error.target? = some callable.name ∧ ∃ path cause,
      (callable :: path).IsChain (Step extractor catalog) ∧
      Arises extractor (path.getLastD callable) cause ∧
      collapse error.targets = collapse ((callable :: path).map (·.name)) ∧
      error.EndsIn cause := by
  obtain ⟨inner, hInner, rfl⟩ := mapError_eq_error_iff.mp h
  have hInnerReadable : inner ≠ .unreadableDocumentation := by
    rintro rfl
    exact hReadable rfl
  obtain ⟨path, cause, hPath⟩ :=
    (trail_of_schemaOfCallable hGrounded hAsks hInner).explained hStrategies hInnerReadable
  rcases named_cases callable.name hInnerReadable with ⟨hTarget, hNamed⟩ | hNamed
  · rw [hNamed]
    obtain ⟨more, hTargets⟩ := Error.targets_of_target? hTarget
    refine ⟨hTarget, path, cause, hPath.linked, hPath.arises, ?_, hPath.ends⟩
    rw [← hPath.targets, hTargets, collapse_cons_self]
  · rw [hNamed]
    exact ⟨rfl, path, cause, hPath.linked, hPath.arises, hPath.targets, hPath.ends.extraction _⟩

/-- The standard strategy never fails at all. -/
theorem failsWithFaults_standard : standard.FailsWithFaults := by
  intro strategy hm callable error hClaim
  cases List.mem_singleton.mp hm
  simp only [Strategy.temporal] at hClaim
  split at hClaim <;> cases hClaim

/-- The class of a parameter has a field whose type has no schema. The function is named, and then
the class. -/
theorem move_error_path :
    let point : Callable := {
      name := "Point"
      kind := .classDef
      doc := none
      signature := some ⟨[⟨"tags", .positionalOrKeyword, some (.generic .set [.str]), false⟩], none⟩
      initializer := none
      construct := .record "Point" []
      backing := none }
    let move : Callable := {
      name := "move"
      kind := .function
      doc := none
      signature := some
        ⟨[⟨"to", .positionalOrKeyword, some (.classRef ⟨"Point", 0⟩), false⟩], none⟩
      initializer := none
      construct := .record "move" []
      backing := none }
    ∃ error, standard.extract [point] move = .error error ∧ error.target? = some "move" ∧
      ∃ path cause, (move :: path).IsChain (Step standard [point]) ∧
        Arises standard (path.getLastD move) cause ∧
        collapse error.targets = collapse ((move :: path).map (·.name)) ∧ error.EndsIn cause := by
  intro point move
  have hGrounded : Catalog.Grounded [point] fun ref => ref.index = 0 := by
    intro ref hRef
    refine ⟨point, by rw [hRef]; rfl, fun older hAsks => ?_⟩
    obtain ⟨type, hm, hNames⟩ := hAsks
    cases List.mem_singleton.mp hm
    obtain ⟨arg, hArg, hNames⟩ := TypeExpr.namesClass_generic_iff.mp hNames
    cases List.mem_singleton.mp hArg
    cases hNames
  have hAsks (ref : ClassRef) (hAsks : move.Asks ref) : ref.index = 0 := by
    obtain ⟨type, hm, hNames⟩ := hAsks
    cases List.mem_singleton.mp hm
    cases hNames
    rfl
  have hFails : standard.extract [point] move = .error (.extraction "move" (.extraction "Point"
    (.declaration (.unsupportedType "set[str]")))) := rfl
  exact ⟨_, hFails, extract_error_path failsWithFaults_standard hGrounded hAsks hFails nofun⟩

end Extractor

end ToolSchema
