import Mathlib.Logic.Relation
import ToolSchema.Proofs.Extraction.Matching

/-! When extraction succeeds. Conversion of a type fails at a part without a schema or at
a class, so a type is converted if its own form is supported and its classes have
schemas, and only what a callable reaches through its types decides. -/
namespace ToolSchema

open Except (bind_eq_ok_iff bind_eq_error_iff)

namespace TypeExpr

/-- The forms that are converted, whatever the classes in them are. -/
inductive Supported : TypeExpr → Prop
  | any : Supported .any
  | null : Supported .null
  | int : Supported .int
  | float : Supported .float
  | str : Supported .str
  | bool : Supported .bool
  | literal (values : List Constant) : Supported (.literal values)
  | union {arms : List TypeExpr} (h : ∀ arm ∈ arms, Supported arm) : Supported (.union arms)
  | list {item : TypeExpr} (h : Supported item) : Supported (.generic .list [item])
  | repeated {item : TypeExpr} (h : Supported item) : Supported (.generic .tuple [item, .ellipsis])
  | tuple {items : List TypeExpr} (h : ∀ item ∈ items, Supported item) :
      Supported (.generic .tuple items)
  | dict {key value : TypeExpr} (hKey : Supported key) (hValue : Supported value) :
      Supported (.generic .dict [key, value])
  | classRef (ref : ClassRef) : Supported (.classRef ref)

/-- The class occurs in the type. -/
inductive NamesClass (ref : ClassRef) : TypeExpr → Prop
  | named {name : String} {target : TypeExpr} (h : NamesClass ref target) :
      NamesClass ref (.alias name target)
  | tagged {inner : TypeExpr} {tags : List String} (h : NamesClass ref inner) :
      NamesClass ref (.tagged inner tags)
  | union {arms : List TypeExpr} {arm : TypeExpr} (hm : arm ∈ arms) (h : NamesClass ref arm) :
      NamesClass ref (.union arms)
  | generic {origin : Origin} {args : List TypeExpr} {arg : TypeExpr} (hm : arg ∈ args)
      (h : NamesClass ref arg) : NamesClass ref (.generic origin args)
  | classRef : NamesClass ref (.classRef ref)

/-- A class in a union is in one of its arms, and one in a container is in one of its arguments. -/
theorem namesClass_union_iff {ref : ClassRef} {arms : List TypeExpr} :
    NamesClass ref (.union arms) ↔ ∃ arm ∈ arms, NamesClass ref arm := by
  constructor
  · intro h
    cases h with
    | union hm h => exact ⟨_, hm, h⟩
  · intro h
    obtain ⟨arm, hm, h⟩ := h
    exact .union hm h

theorem namesClass_generic_iff {ref : ClassRef} {origin : Origin} {args : List TypeExpr} :
    NamesClass ref (.generic origin args) ↔ ∃ arg ∈ args, NamesClass ref arg := by
  constructor
  · intro h
    cases h with
    | generic hm h => exact ⟨_, hm, h⟩
  · intro h
    obtain ⟨arg, hm, h⟩ := h
    exact .generic hm h

/-- A reason why the type has no schema, whatever the classes in it are. -/
inductive Faulty : TypeExpr → DeclarationFault → Prop
  | named (name : String) (target : TypeExpr) :
      Faulty (.alias name target) (.unsupportedType (TypeExpr.alias name target).text)
  | tagged (inner : TypeExpr) (tags : List String) :
      Faulty (.tagged inner tags) (.unsupportedType (TypeExpr.tagged inner tags).text)
  | ellipsis : Faulty .ellipsis (.unsupportedType TypeExpr.ellipsis.text)
  | container {origin : Origin} (hOrigin : origin ∉ [.list, .tuple, .dict]) (args : List TypeExpr) :
      Faulty (.generic origin args) (.unsupportedType (TypeExpr.generic origin args).text)
  | list {args : List TypeExpr} (hLength : args.length ≠ 1) :
      Faulty (.generic .list args) (.oneArgument (TypeExpr.generic .list args).text args.length)
  | dict {args : List TypeExpr} (hLength : args.length ≠ 2) :
      Faulty (.generic .dict args) (.twoArguments (TypeExpr.generic .dict args).text args.length)
  | arm {arms : List TypeExpr} {arm : TypeExpr} (hm : arm ∈ arms) {fault : DeclarationFault}
      (h : Faulty arm fault) : Faulty (.union arms) fault
  | item {item : TypeExpr} {fault : DeclarationFault} (h : Faulty item fault) :
      Faulty (.generic .list [item]) fault
  | repeated {item : TypeExpr} {fault : DeclarationFault} (h : Faulty item fault) :
      Faulty (.generic .tuple [item, .ellipsis]) fault
  | component {items : List TypeExpr} (hOther : ∀ item, items ≠ [item, .ellipsis]) {item : TypeExpr}
      (hm : item ∈ items) {fault : DeclarationFault} (h : Faulty item fault) :
      Faulty (.generic .tuple items) fault
  | entry {key value arg : TypeExpr} (hm : arg ∈ [key, value]) {fault : DeclarationFault}
      (h : Faulty arg fault) : Faulty (.generic .dict [key, value]) fault

/-- A type with a fault has no supported form. -/
theorem Faulty.not_supported {type : TypeExpr} {fault : DeclarationFault} (h : type.Faulty fault) :
    ¬ type.Supported := by
  intro hForm
  induction h with
  | named _ _ => cases hForm
  | tagged _ _ => cases hForm
  | ellipsis => cases hForm
  | container hOrigin _ => cases hForm <;> exact hOrigin (by decide)
  | list hLength =>
      cases hForm
      exact hLength rfl
  | dict hLength =>
      cases hForm
      exact hLength rfl
  | arm hm _ ih =>
      cases hForm with
      | union hArms => exact ih (hArms _ hm)
  | item _ ih =>
      cases hForm with
      | list hItem => exact ih hItem
  | repeated _ ih =>
      cases hForm with
      | repeated hItem => exact ih hItem
      | tuple hItems => exact ih (hItems _ (.head _))
  | component hOther hm _ ih =>
      cases hForm with
      | repeated _ => exact hOther _ rfl
      | tuple hItems => exact ih (hItems _ hm)
  | entry hm _ ih =>
      cases hForm with
      | dict hKey hValue =>
          rcases List.mem_pair.mp hm with rfl | rfl
          · exact ih hKey
          · exact ih hValue

end TypeExpr

namespace Extractor

open TypeExpr (Faulty NamesClass Supported)

/-! Types -/

section

variable {classes : ClassSchemas} {error : Error}

/-- A fault of the type or the failure of a class in it. -/
def Blames (classes : ClassSchemas) (type : TypeExpr) (error : Error) : Prop :=
  (∃ fault, type.Faulty fault ∧ error = .declaration fault) ∨
    ∃ ref, type.NamesClass ref ∧ classes ref = .error error

/-- What is to blame in a part is to blame in the whole, if the whole has the faults and the classes
of the part. -/
theorem Blames.lift {part whole : TypeExpr} (h : Blames classes part error)
    (hFaulty : ∀ fault, part.Faulty fault → whole.Faulty fault)
    (hNames : ∀ ref, part.NamesClass ref → whole.NamesClass ref) : Blames classes whole error := by
  rcases h with ⟨fault, hFault, he⟩ | ⟨ref, hRef, hClass⟩
  · exact .inl ⟨fault, hFaulty fault hFault, he⟩
  · exact .inr ⟨ref, hNames ref hRef, hClass⟩

/-- A list of types fails by the failure of one of them. -/
theorem exists_of_convertAll_eq_error {types : List TypeExpr}
    (h : convertAll classes types = .error error) :
    ∃ type ∈ types, convert classes type = .error error := by
  induction types with
  | nil => cases h
  | cons type more ih =>
      rcases bind_eq_error_iff.mp h with hFirst | ⟨_, _, hRest⟩
      · exact ⟨type, .head _, hFirst⟩
      · rcases bind_eq_error_iff.mp hRest with hMore | ⟨_, _, hPure⟩
        · obtain ⟨other, hm, hOther⟩ := ih hMore
          exact ⟨other, .tail _ hm, hOther⟩
        · cases hPure

theorem exists_of_convertArms_eq_error {arms : List TypeExpr}
    (h : convertArms classes arms = .error error) :
    ∃ arm ∈ arms, convert classes arm = .error error := by
  induction arms with
  | nil => cases h
  | cons arm more ih =>
      have hMore (h : convertArms classes more = .error error) :
          ∃ other ∈ arm :: more, convert classes other = .error error := by
        obtain ⟨other, hm, hOther⟩ := ih h
        exact ⟨other, .tail _ hm, hOther⟩
      by_cases hNull : arm = .null
      · subst hNull
        rcases bind_eq_error_iff.mp h with hRest | ⟨_, _, hPure⟩
        · exact hMore hRest
        · cases hPure
      · rw [convertArms] at h
        · rcases bind_eq_error_iff.mp h with hFirst | ⟨_, _, hRest⟩
          · exact ⟨arm, .head _, hFirst⟩
          · rcases bind_eq_error_iff.mp hRest with hRest | ⟨_, _, hPure⟩
            · exact hMore hRest
            · cases hPure
        · exact hNull

/-- A container fails by its own shape or by an argument. -/
theorem blames_of_convert_generic {origin : Origin} {args : List TypeExpr}
    (hArgs : ∀ arg ∈ args, convert classes arg = .error error → Blames classes arg error)
    (h : convert classes (.generic origin args) = .error error) :
    Blames classes (.generic origin args) error := by
  have hArg {arg : TypeExpr} (hm : arg ∈ args) (h : convert classes arg = .error error)
      (hFaulty : ∀ fault, arg.Faulty fault → Faulty (.generic origin args) fault) :
      Blames classes (.generic origin args) error :=
    (hArgs arg hm h).lift hFaulty fun _ => .generic hm
  cases origin with
  | list =>
      rcases args with _ | ⟨item, _ | ⟨_, _⟩⟩
      · cases h
        exact .inl ⟨_, .list (by decide), rfl⟩
      · rcases bind_eq_error_iff.mp h with hItem | ⟨_, _, hPure⟩
        · exact hArg (.head _) hItem fun _ => .item
        · cases hPure
      · cases h
        exact .inl ⟨_, .list (by simp), rfl⟩
  | tuple =>
      by_cases hRepeated : ∃ item, args = [item, .ellipsis]
      · obtain ⟨item, rfl⟩ := hRepeated
        rcases bind_eq_error_iff.mp h with hItem | ⟨_, _, hPure⟩
        · exact hArg (.head _) hItem fun _ => .repeated
        · cases hPure
      · have hOther (item : TypeExpr) : args ≠ [item, .ellipsis] := fun he => hRepeated ⟨item, he⟩
        rw [convert] at h
        · rcases bind_eq_error_iff.mp h with hItems | ⟨_, _, hPure⟩
          · obtain ⟨item, hm, hItem⟩ := exists_of_convertAll_eq_error hItems
            exact hArg hm hItem fun _ => .component hOther hm
          · cases hPure
        · exact hOther
  | dict =>
      rcases args with _ | ⟨key, _ | ⟨value, _ | ⟨_, _⟩⟩⟩
      · cases h
        exact .inl ⟨_, .dict (by decide), rfl⟩
      · cases h
        exact .inl ⟨_, .dict (by simp), rfl⟩
      · rcases bind_eq_error_iff.mp h with hKey | ⟨_, _, hRest⟩
        · exact hArg (.head _) hKey fun _ => .entry (.head _)
        · rcases bind_eq_error_iff.mp hRest with hValue | ⟨_, _, hPure⟩
          · exact hArg (.tail _ (.head _)) hValue fun _ => .entry (.tail _ (.head _))
          · cases hPure
      · cases h
        exact .inl ⟨_, .dict (by simp), rfl⟩
  | _ =>
      cases h
      exact .inl ⟨_, .container (by decide) args, rfl⟩

/-- Conversion fails with a fault of the type or with the failure of a class in it. -/
theorem blames_of_convert {type : TypeExpr} (h : convert classes type = .error error) :
    Blames classes type error := by
  induction type using TypeExpr.induction with
  | named name target _ =>
      cases h
      exact .inl ⟨_, .named name target, rfl⟩
  | tagged inner tags _ =>
      cases h
      exact .inl ⟨_, .tagged inner tags, rfl⟩
  | ellipsis =>
      cases h
      exact .inl ⟨_, .ellipsis, rfl⟩
  | union arms ih =>
      rcases bind_eq_error_iff.mp h with hArms | ⟨_, _, hPure⟩
      · obtain ⟨arm, hm, hArm⟩ := exists_of_convertArms_eq_error hArms
        exact (ih arm hm hArm).lift (fun _ => .arm hm) fun _ => .union hm
      · cases hPure
  | generic origin args ih => exact blames_of_convert_generic ih h
  | classRef ref =>
      rcases bind_eq_error_iff.mp h with hClass | ⟨_, _, hPure⟩
      · exact .inr ⟨ref, .classRef, hClass⟩
      · cases hPure
  | _ => cases h

/-- The type has a supported form, and its classes have schemas. -/
def Convertible (classes : ClassSchemas) (type : TypeExpr) : Prop :=
  type.Supported ∧ ∀ ref, type.NamesClass ref → ∃ object, classes ref = .ok object

/-- A union of convertible arms is convertible, and so are containers of convertible arguments in a
supported form. -/
theorem convertible_union {arms : List TypeExpr} (h : ∀ arm ∈ arms, Convertible classes arm) :
    Convertible classes (.union arms) := by
  refine ⟨.union fun arm hm => (h arm hm).1, fun ref hRef => ?_⟩
  obtain ⟨arm, hm, hRef⟩ := TypeExpr.namesClass_union_iff.mp hRef
  exact (h arm hm).2 ref hRef

theorem convertible_generic {origin : Origin} {args : List TypeExpr}
    (hForm : Supported (.generic origin args))
    (hArgs : ∀ arg ∈ args, arg ≠ .ellipsis → Convertible classes arg) :
    Convertible classes (.generic origin args) := by
  refine ⟨hForm, fun ref hRef => ?_⟩
  obtain ⟨arg, hm, hRef⟩ := TypeExpr.namesClass_generic_iff.mp hRef
  have hMark : arg ≠ .ellipsis := by
    rintro rfl
    cases hRef
  exact (hArgs arg hm hMark).2 ref hRef

/-- The other direction, shape by shape: a container that is converted has a supported form. -/
theorem convertible_of_convert_generic {origin : Origin} {args : List TypeExpr}
    (hArgs : ∀ arg ∈ args, ∀ schema, convert classes arg = .ok schema → Convertible classes arg)
    {schema : Schema} (h : convert classes (.generic origin args) = .ok schema) :
    Convertible classes (.generic origin args) := by
  rcases convert_generic_ok h with ⟨rfl, item, inner, rfl, hItem, -⟩ |
    ⟨rfl, item, inner, rfl, hItem, -⟩ | ⟨rfl, -, inners, hInners, -⟩ |
    ⟨rfl, key, value, keys, values, rfl, hKey, hValue, -⟩
  · have hItem := hArgs item (.head _) inner hItem
    exact convertible_generic (.list hItem.1) fun arg hm _ => List.mem_singleton.mp hm ▸ hItem
  · have hItem := hArgs item (.head _) inner hItem
    refine convertible_generic (.repeated hItem.1) fun arg hm hMark => ?_
    rcases List.mem_pair.mp hm with rfl | rfl
    · exact hItem
    · exact absurd rfl hMark
  · have hItems (item : TypeExpr) (hm : item ∈ args) : Convertible classes item := by
      obtain ⟨inner, _, hItem⟩ := (convertAll_eq_ok_iff.mp hInners).exists_right hm
      exact hArgs item hm inner hItem
    exact convertible_generic (.tuple fun item hm => (hItems item hm).1) fun item hm _ =>
      hItems item hm
  · have hKey := hArgs key (.head _) keys hKey
    have hValue := hArgs value (.tail _ (.head _)) values hValue
    refine convertible_generic (.dict hKey.1 hValue.1) fun arg hm _ => ?_
    rcases List.mem_pair.mp hm with rfl | rfl
    · exact hKey
    · exact hValue

/-- Nothing is converted that should not be, by induction over the type. -/
theorem convertible_of_convert {type : TypeExpr} {schema : Schema}
    (h : convert classes type = .ok schema) : Convertible classes type := by
  induction type using TypeExpr.induction generalizing schema with
  | named _ _ _ => cases h
  | tagged _ _ _ => cases h
  | ellipsis => cases h
  | union arms ih =>
      obtain ⟨options, hOptions, _⟩ := bind_eq_ok_iff.mp h
      refine convertible_union fun arm hm => ?_
      obtain ⟨option, _, hAlternative⟩ := (convertArms_eq_ok_iff.mp hOptions).exists_right hm
      cases hAlternative with
      | null => exact ⟨.null, nofun⟩
      | schema _ hConvert => exact ih arm hm hConvert
  | generic origin args ih =>
      exact convertible_of_convert_generic (fun arg hm _ hArg => ih arg hm hArg) h
  | classRef ref =>
      obtain ⟨object, hObject, _⟩ := bind_eq_ok_iff.mp h
      refine ⟨.classRef ref, fun other hOther => ?_⟩
      cases hOther
      exact ⟨object, hObject⟩
  | _ => exact ⟨by constructor, nofun⟩

/-- Conversion succeeds exactly on the supported forms with classes that have schemas. -/
theorem exists_convert_iff {type : TypeExpr} :
    (∃ schema, convert classes type = .ok schema) ↔ Convertible classes type := by
  constructor
  · intro h
    obtain ⟨schema, h⟩ := h
    exact convertible_of_convert h
  · intro h
    cases hOutcome : convert classes type with
    | ok schema => exact ⟨schema, rfl⟩
    | error error =>
        -- There is nothing to blame for a failure.
        rcases blames_of_convert hOutcome with ⟨_, hFault, _⟩ | ⟨ref, hRef, hClass⟩
        · exact absurd h.1 hFault.not_supported
        · obtain ⟨object, hObject⟩ := h.2 ref hRef
          cases hClass.symm.trans hObject

end

end Extractor

/-! Callables -/

namespace Callable

/-- The types of the parameters and of the result as a caller sees them. -/
def types (callable : Callable) : List TypeExpr :=
  match callable.callSignature? with
  | some signature => signature.params.filterMap (·.type) ++ signature.returns.toList
  | none => []

/-- The class occurs in a type of the callable, as the type is converted. -/
def Asks (callable : Callable) (ref : ClassRef) : Prop :=
  ∃ type ∈ callable.types, (type.normalize true).NamesClass ref

end Callable

section

open TypeExpr (Matches)

variable {r : ClassRef → ClassRef → Prop}

/-- A type that matches itself relates each of its classes to itself. -/
theorem TypeExpr.Matches.of_namesClass {t : TypeExpr} (h : Matches r t t) {ref : ClassRef}
    (hRef : t.NamesClass ref) : r ref ref := by
  have hSelf {types : List TypeExpr} (h : ∀ s t, (s, t) ∈ types.zip types → Matches r s t) :
      ∀ type ∈ types, Matches r type type :=
    List.forall₂_same.mp (List.forall₂_iff_zip.mpr ⟨rfl, h _ _⟩)
  induction hRef with
  | named _ ih =>
      cases h with
      | named _ h => exact ih h
  | tagged _ ih =>
      cases h with
      | tagged _ h => exact ih h
  | union hm _ ih =>
      cases h with
      | union _ h => exact ih (hSelf h _ hm)
  | generic hm _ ih =>
      cases h with
      | generic _ _ h => exact ih (hSelf h _ hm)
  | classRef =>
      cases h with
      | classRef h => exact h

/-- What relates a callable to itself relates the classes that it asks for to
themselves. -/
theorem Callable.Related.of_asks {callable : Callable} (h : callable.Related (Matches r) callable)
    (hEq : ∀ a b, r a b → a = b) {ref : ClassRef} (hAsks : callable.Asks ref) : r ref ref := by
  obtain ⟨type, hm, hNames⟩ := hAsks
  have hSignature := Extractor.callSignature?_related h
  rw [Callable.types] at hm
  have hType : Matches r type type := by
    cases hOwn : callable.callSignature? with
    | none =>
        rw [hOwn] at hm
        cases hm
    | some signature =>
        rw [hOwn] at hm hSignature
        cases hSignature with
        | some hSignature =>
            rcases List.mem_append.mp hm with hm | hm
            · obtain ⟨param, hParam, hType⟩ := List.mem_filterMap.mp hm
              have hRelated := (List.forall₂_same.mp hSignature.params param hParam).type
              rw [hType] at hRelated
              cases hRelated with
              | some hMatches => exact hMatches
            · have hRelated := hSignature.returns
              rw [Option.mem_toList.mp hm] at hRelated
              cases hRelated with
              | some hMatches => exact hMatches
  refine (hType.normalize (fun a b a' b' hab hab' => ?_) true).of_namesClass hNames
  rw [hEq a b hab, hEq a' b' hab']

end

/-- The classes are declared, and their declarations ask for older ones among them
only. -/
def Catalog.Grounded (catalog : Catalog) (among : ClassRef → Prop) : Prop :=
  ∀ ref, among ref → ∃ callable, catalog.get? ref.index = some callable ∧
    ∀ older, callable.Asks older → among older ∧ older.index < ref.index

namespace Extractor

variable {extractor : Extractor} {catalog : Catalog} {callable : Callable}

/-- A strategy claims the callable, or nothing but the schemas of its classes can be
missing. -/
def Fit (extractor : Extractor) (callable : Callable) : Prop :=
  (∃ schema, extractor.claim callable = .ok (some schema)) ∨
    extractor.claim callable = .ok none ∧ callable.callSignature?.isSome = true ∧
      (Hints.ofCallable callable).isSome = true ∧
      ∀ type ∈ callable.types, (type.normalize true).Supported

/-- The second is the declaration of a class that the first asks for. What a strategy
claims is not looked into. -/
def Step (extractor : Extractor) (catalog : Catalog) (callable other : Callable) : Prop :=
  extractor.claim callable = .ok none ∧
    ∃ ref, callable.Asks ref ∧ catalog.get? ref.index = some other

/-- Extraction comes to the second callable on its way through the first. -/
def Reaches (extractor : Extractor) (catalog : Catalog) : Callable → Callable → Prop :=
  Relation.ReflTransGen (Step extractor catalog)

/-- A type that is left out always has a schema. -/
theorem exists_schemaOfOption_iff {classes : ClassSchemas} {type : Option TypeExpr} :
    (∃ schema, schemaOfOption classes type = .ok schema) ↔
      ∀ written ∈ type.toList, Convertible classes (written.normalize true) := by
  cases type with
  | none => exact ⟨fun _ => nofun, fun _ => ⟨_, rfl⟩⟩
  | some type =>
      rw [Option.toList_some, List.forall_mem_singleton]
      exact exists_convert_iff

/-- Parameters have fields if their types are convertible. -/
theorem exists_fieldsOf_iff {classes : ClassSchemas} {hints : Hints} {params : List Parameter} :
    (∃ fields, fieldsOf classes hints params = .ok fields) ↔
      ∀ type ∈ params.filterMap (·.type), Convertible classes (type.normalize true) := by
  induction params with
  | nil => exact ⟨fun _ => nofun, fun _ => ⟨[], rfl⟩⟩
  | cons param more ih =>
      have hTypes : (param :: more).filterMap (·.type) =
          param.type.toList ++ more.filterMap (·.type) := by
        cases hType : param.type <;> simp [hType]
      rw [hTypes, List.forall_mem_append, ← ih, ← exists_schemaOfOption_iff]
      constructor
      · intro h
        obtain ⟨fields, h⟩ := h
        obtain ⟨schema, hSchema, h⟩ := bind_eq_ok_iff.mp h
        obtain ⟨rest, hRest, _⟩ := bind_eq_ok_iff.mp h
        exact ⟨⟨schema, hSchema⟩, rest, hRest⟩
      · intro h
        obtain ⟨⟨schema, hSchema⟩, rest, hRest⟩ := h
        exact ⟨_, bind_eq_ok_iff.mpr ⟨schema, hSchema, bind_eq_ok_iff.mpr ⟨rest, hRest, rfl⟩⟩⟩

/-- What a callable needs for a schema: a signature, documentation that can be read, and convertible
types. -/
theorem exists_schema_of_unclaimed_iff {classes : ClassSchemas}
    (hUnclaimed : extractor.claim callable = .ok none) :
    (∃ schema, extractor.schemaOfCallable classes callable = .ok schema) ↔
      callable.callSignature?.isSome = true ∧ (Hints.ofCallable callable).isSome = true ∧
        ∀ type ∈ callable.types, Convertible classes (type.normalize true) := by
  rw [Callable.types, Option.isSome_iff_exists, Option.isSome_iff_exists]
  constructor
  · intro h
    obtain ⟨schema, h⟩ := h
    obtain ⟨signature, hints, fields, returns, hSignature, hHints, hFields, hReturns, _⟩ :=
      (schemaOfCallable_eq_ok_iff hUnclaimed).mp h
    refine ⟨⟨signature, hSignature⟩, ⟨hints, hHints⟩, ?_⟩
    rw [hSignature]
    exact List.forall_mem_append.mpr
      ⟨exists_fieldsOf_iff.mp ⟨fields, hFields⟩, exists_schemaOfOption_iff.mp ⟨returns, hReturns⟩⟩
  · intro h
    obtain ⟨⟨signature, hSignature⟩, ⟨hints, hHints⟩, hTypes⟩ := h
    rw [hSignature] at hTypes
    obtain ⟨hParams, hReturns⟩ := List.forall_mem_append.mp hTypes
    obtain ⟨fields, hFields⟩ := exists_fieldsOf_iff.mpr hParams
    obtain ⟨returns, hReturns⟩ := exists_schemaOfOption_iff.mpr hReturns
    exact ⟨_, (schemaOfCallable_eq_ok_iff hUnclaimed).mpr
      ⟨signature, hints, fields, returns, hSignature, hHints, hFields, hReturns, rfl⟩⟩

/-- A callable has a schema exactly if it is fit and its classes have schemas. -/
theorem exists_schemaOfCallable_iff {classes : ClassSchemas} :
    (∃ schema, extractor.schemaOfCallable classes callable = .ok schema) ↔
      Fit extractor callable ∧ (extractor.claim callable = .ok none →
        ∀ ref, callable.Asks ref → ∃ object, classes ref = .ok object) := by
  cases hClaim : extractor.claim callable with
  | error error =>
      rw [Fit, schemaOfCallable, hClaim]
      constructor
      · intro h
        obtain ⟨schema, h⟩ := h
        cases h
      · intro h
        obtain ⟨⟨schema, h⟩ | ⟨h, _⟩, _⟩ := h <;> cases h
  | ok claimed =>
      cases claimed with
      | some schema =>
          rw [Fit, schemaOfCallable, hClaim]
          exact ⟨fun _ => ⟨.inl ⟨schema, rfl⟩, fun h => by cases h⟩, fun _ => ⟨schema, rfl⟩⟩
      | none =>
          rw [exists_schema_of_unclaimed_iff hClaim, Fit, hClaim]
          constructor
          · intro h
            obtain ⟨hSignature, hHints, hTypes⟩ := h
            refine ⟨.inr ⟨rfl, hSignature, hHints, fun type hm => (hTypes type hm).1⟩, ?_⟩
            intro _ ref hAsks
            obtain ⟨type, hm, hNames⟩ := hAsks
            exact (hTypes type hm).2 ref hNames
          · intro h
            obtain ⟨⟨_, h⟩ | ⟨_, hSignature, hHints, hForms⟩, hClasses⟩ := h
            · cases h
            · exact ⟨hSignature, hHints, fun type hm =>
                ⟨hForms type hm, fun ref hNames => hClasses rfl ref ⟨type, hm, hNames⟩⟩⟩

/-! Classes -/

/-- Everything that is reached is the callable itself or reached by way of a class of it. -/
theorem forall_reaches_iff {p : Callable → Prop} :
    (∀ other, Reaches extractor catalog callable other → p other) ↔
      p callable ∧ ∀ next, Step extractor catalog callable next →
        ∀ other, Reaches extractor catalog next other → p other := by
  constructor
  · intro h
    exact ⟨h callable .refl, fun next hStep other hRest => h other (.head hStep hRest)⟩
  · intro h other hReaches
    rcases hReaches.cases_head with rfl | ⟨next, hStep, hRest⟩
    · exact h.1
    · exact h.2 next hStep other hRest

/-- If this is known of the classes that a callable asks for, it is true of the
callable. -/
theorem exists_schema_iff_of_classes {classes : ClassSchemas}
    (hClasses : ∀ ref, callable.Asks ref → ∃ other, catalog.get? ref.index = some other ∧
      ((∃ object, classes ref = .ok object) ↔
        ∀ reached, Reaches extractor catalog other reached → Fit extractor reached)) :
    (∃ schema, extractor.schemaOfCallable classes callable = .ok schema) ↔
      ∀ reached, Reaches extractor catalog callable reached → Fit extractor reached := by
  rw [exists_schemaOfCallable_iff, forall_reaches_iff]
  refine and_congr_right fun _ => ⟨fun h => ?_, fun h => ?_⟩
  · intro next hStep
    obtain ⟨hUnclaimed, ref, hAsks, hNext⟩ := hStep
    obtain ⟨other, hOther, hSchema⟩ := hClasses ref hAsks
    cases hNext.symm.trans hOther
    exact hSchema.mp (h hUnclaimed ref hAsks)
  · intro hUnclaimed ref hAsks
    obtain ⟨other, hOther, hSchema⟩ := hClasses ref hAsks
    exact hSchema.mpr (h other ⟨hUnclaimed, ref, hAsks, hOther⟩)

section

variable {among : ClassRef → Prop} (hGrounded : catalog.Grounded among)

include hGrounded

/-- A class has a schema exactly if everything that its declaration reaches is fit. -/
theorem exists_classSchema_iff {ref : ClassRef} (hRef : among ref)
    (hEntry : catalog.get? ref.index = some callable) :
    (∃ object, extractor.classSchema catalog ref = .ok object) ↔
      ∀ reached, Reaches extractor catalog callable reached → Fit extractor reached := by
  induction hIndex : ref.index using Nat.strongRecOn generalizing ref callable with
  | ind n ih =>
      subst hIndex
      obtain ⟨classes, hOlder, hSchema⟩ := @classSchema_of_get? extractor _ _ _ hEntry
      rw [← @exists_schema_iff_of_classes _ _ _ classes, hSchema]
      · cases extractor.schemaOfCallable classes callable <;> simp [Except.map, Except.mapError]
      · intro older hAsks
        obtain ⟨declared, hDeclared, hBefore⟩ := hGrounded ref hRef
        cases hEntry.symm.trans hDeclared
        obtain ⟨hAmong, hBefore⟩ := hBefore older hAsks
        obtain ⟨other, hOther, _⟩ := hGrounded older hAmong
        exact ⟨other, hOther, hOlder older hBefore ▸ ih _ hBefore hAmong hOther rfl⟩

/-- Extraction succeeds exactly if everything that the callable reaches is fit. -/
theorem exists_extract_iff (hAsks : ∀ ref, callable.Asks ref → among ref) :
    (∃ schema, extractor.extract catalog callable = .ok schema) ↔
      ∀ reached, Reaches extractor catalog callable reached → Fit extractor reached := by
  have hClasses (ref : ClassRef) (hRef : callable.Asks ref) :
      ∃ other, catalog.get? ref.index = some other ∧
        ((∃ object, extractor.classSchema catalog ref = .ok object) ↔
          ∀ reached, Reaches extractor catalog other reached → Fit extractor reached) := by
    obtain ⟨other, hOther, _⟩ := hGrounded ref (hAsks ref hRef)
    exact ⟨other, hOther, exists_classSchema_iff hGrounded (hAsks ref hRef) hOther⟩
  rw [← exists_schema_iff_of_classes hClasses]
  exact exists_congr fun schema => Except.mapError_eq_ok_iff

end

end Extractor

end ToolSchema
