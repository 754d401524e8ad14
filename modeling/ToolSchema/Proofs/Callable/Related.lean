import Mathlib.Data.List.Forall2
import ToolSchema.Proofs.Callable.Declaration
import ToolSchema.Proofs.Pairs

/-! Callables that differ in their types only. The checks of a declaration do not
look at types, so related declarations give related callables. -/
namespace ToolSchema

open Except

structure Parameter.Related (r : TypeExpr → TypeExpr → Prop) (param param' : Parameter) : Prop where
  name : param.name = param'.name
  passing : param.passing = param'.passing
  hasDefault : param.hasDefault = param'.hasDefault
  type : Option.Rel r param.type param'.type

structure Signature.Related (r : TypeExpr → TypeExpr → Prop) (signature signature' : Signature) :
    Prop where
  params : List.Forall₂ (Parameter.Related r) signature.params signature'.params
  returns : Option.Rel r signature.returns signature'.returns

structure Initializer.Related (r : TypeExpr → TypeExpr → Prop) (init init' : Initializer) :
    Prop where
  doc : init.doc = init'.doc
  signature : init.signature.Related r init'.signature

/-- Callables that differ in their types only, and there by the relation. -/
structure Callable.Related (r : TypeExpr → TypeExpr → Prop) (callable callable' : Callable) :
    Prop where
  name : callable.name = callable'.name
  kind : callable.kind = callable'.kind
  doc : callable.doc = callable'.doc
  signature : Option.Rel (Signature.Related r) callable.signature callable'.signature
  initializer : Option.Rel (Initializer.Related r) callable.initializer callable'.initializer
  construct : callable.construct = callable'.construct
  backing : callable.backing = callable'.backing

structure Declaration.Related (r : TypeExpr → TypeExpr → Prop)
    (declaration declaration' : Declaration) : Prop where
  name : declaration.name = declaration'.name
  kind : declaration.kind = declaration'.kind
  doc : declaration.doc = declaration'.doc
  signature : Option.Rel (Signature.Related r) declaration.signature declaration'.signature
  initializer : Option.Rel (Initializer.Related r) declaration.initializer declaration'.initializer
  construct : declaration.construct = declaration'.construct
  backing : declaration.backing = declaration'.backing

section

variable {r : TypeExpr → TypeExpr → Prop}

/-- The checks of parameters look at names and at the ways of passing. -/
theorem Signature.checkParams_congr {params params' : List Parameter}
    (h : List.Forall₂ (Parameter.Related r) params params') (owner : String) (seen : List String)
    (previous : Passing) :
    checkParams owner seen previous params = checkParams owner seen previous params' := by
  induction h generalizing seen previous with
  | nil => rfl
  | cons hFirst _ ih => rw [checkParams, checkParams, hFirst.name, hFirst.passing, ih]

theorem Signature.Related.check_eq {signature signature' : Signature}
    (h : signature.Related r signature') (owner : String) :
    signature.check owner = signature'.check owner :=
  checkParams_congr h.params owner [] .positionalOnly

/-- Where one of two related types is left out, so is the other, and a default stands for both. -/
theorem rel_getD {α : Type} {s : α → α → Prop} {first first' : Option α} {other : α}
    (h : Option.Rel s first first') (hOther : s other other) :
    s (first.getD other) (first'.getD other) := by
  cases h with
  | none => exact hOther
  | some h => exact h

theorem Signature.related_empty : Signature.Related r .empty .empty := ⟨.nil, .none⟩

section

variable {declaration declaration' : Declaration}

/-- Each step in which a declaration is put together keeps declarations related. -/
theorem Declaration.Related.withParam (h : declaration.Related r declaration')
    {param param' : Parameter} (hParam : param.Related r param') :
    (declaration.withParam param).Related r (declaration'.withParam param') where
  name := h.name
  kind := h.kind
  doc := h.doc
  signature := by
    have hOwn := rel_getD h.signature Signature.related_empty
    exact .some ⟨List.rel_append hOwn.params (.cons hParam .nil), hOwn.returns⟩
  initializer := h.initializer
  construct := h.construct
  backing := h.backing

theorem Declaration.Related.withReturns (h : declaration.Related r declaration')
    {type type' : TypeExpr} (hType : r type type') :
    (declaration.withReturns type).Related r (declaration'.withReturns type') where
  name := h.name
  kind := h.kind
  doc := h.doc
  signature := .some ⟨(rel_getD h.signature Signature.related_empty).params, .some hType⟩
  initializer := h.initializer
  construct := h.construct
  backing := h.backing

theorem Declaration.Related.foldl_withParam (h : declaration.Related r declaration')
    {params params' : List Parameter} (hParams : List.Forall₂ (Parameter.Related r) params params') :
    (params.foldl Declaration.withParam declaration).Related r
      (params'.foldl Declaration.withParam declaration') := by
  induction hParams generalizing declaration declaration' with
  | nil => exact h
  | cons hFirst _ ih => exact ih (h.withParam hFirst)

/-- The checks do not look at types. -/
theorem Declaration.Related.build (h : declaration.Related r declaration')
    {construct : Constructor} (hConstruct : declaration.construct = some construct)
    {callable : Callable} (hBuild : declaration.build = .ok callable) :
    ∃ callable', declaration'.build = .ok callable' ∧ callable.Related r callable' := by
  obtain ⟨name, kind, doc, signature, initializer, _, backing⟩ := declaration
  obtain ⟨_, _, _, signature', initializer', _, _⟩ := declaration'
  obtain ⟨rfl, rfl, rfl, hSignature, hInitializer, rfl, rfl⟩ := h
  dsimp only at hConstruct hSignature hInitializer
  subst hConstruct
  obtain ⟨rfl, _⟩ := build_ok hBuild
  refine ⟨⟨name, kind, doc, signature', initializer', construct, backing⟩, ?_,
    ⟨rfl, rfl, rfl, hSignature, hInitializer, rfl, rfl⟩⟩
  by_cases hBlank : Text.allBlank name.toList = true
  · simp [Declaration.build, hBlank, bind, Except.bind, throw, throwThe, MonadExceptOf.throw] at hBuild
  · simp only [Declaration.build, if_neg hBlank] at hBuild ⊢
    cases hSignature with
    | none =>
        cases hInitializer with
        | none => rfl
        | some hInit =>
            obtain ⟨_, hCheck, _⟩ := bind_eq_ok_iff.mp hBuild
            rw [hInit.signature.check_eq] at hCheck
            exact bind_eq_ok_iff.mpr ⟨_, hCheck, rfl⟩
    | some hOwn =>
        obtain ⟨_, hCheck, hBuild⟩ := bind_eq_ok_iff.mp hBuild
        rw [hOwn.check_eq] at hCheck
        refine bind_eq_ok_iff.mpr ⟨_, hCheck, ?_⟩
        cases hInitializer with
        | none => rfl
        | some hInit =>
            obtain ⟨_, hCheck, _⟩ := bind_eq_ok_iff.mp hBuild
            rw [hInit.signature.check_eq] at hCheck
            exact bind_eq_ok_iff.mpr ⟨_, hCheck, rfl⟩

end

end

/-! Composition -/

/-- Three optional types, related in two steps. -/
theorem rel_chain {α : Type} {r s t : α → α → Prop} {first second third : Option α}
    (h : Option.Rel r first second) (h' : Option.Rel s second third)
    (ht : ∀ a b c, r a b → s b c → t a c) : Option.Rel t first third := by
  cases h with
  | none =>
      cases h'
      exact .none
  | some h =>
      cases h' with
      | some h' => exact .some (ht _ _ _ h h')

section

variable {r s t : TypeExpr → TypeExpr → Prop} (ht : ∀ a b c, r a b → s b c → t a c)

include ht

/-- Relations are composed part by part, from parameters up to callables. -/
theorem Parameter.Related.chain (first second third : Parameter) (h : first.Related r second)
    (h' : second.Related s third) : first.Related t third where
  name := h.name.trans h'.name
  passing := h.passing.trans h'.passing
  hasDefault := h.hasDefault.trans h'.hasDefault
  type := rel_chain h.type h'.type ht

theorem Signature.Related.chain (first second third : Signature) (h : first.Related r second)
    (h' : second.Related s third) : first.Related t third where
  params := h.params.chain h'.params (Parameter.Related.chain ht)
  returns := rel_chain h.returns h'.returns ht

theorem Initializer.Related.chain (first second third : Initializer) (h : first.Related r second)
    (h' : second.Related s third) : first.Related t third where
  doc := h.doc.trans h'.doc
  signature := h.signature.chain ht _ _ _ h'.signature

/-- Callables that differ from a third one in their types differ from each other in their types. -/
theorem Callable.Related.chain {first second third : Callable} (h : first.Related r second)
    (h' : second.Related s third) : first.Related t third where
  name := h.name.trans h'.name
  kind := h.kind.trans h'.kind
  doc := h.doc.trans h'.doc
  signature := rel_chain h.signature h'.signature (Signature.Related.chain ht)
  initializer := rel_chain h.initializer h'.initializer (Initializer.Related.chain ht)
  construct := h.construct.trans h'.construct
  backing := h.backing.trans h'.backing

end

end ToolSchema
