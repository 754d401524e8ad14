import ToolSchema.Proofs.TypeExpr.Normal

/-! Unions in one pass. Normalization works from the inside outwards, but a union comes out
as if its leaves were gone through once, from left to right, with the types and the constants
seen so far at hand. -/
namespace ToolSchema.TypeExpr

/-- Adds an item at the end, unless an equal one is there already. -/
def addNew {α : Type} [BEq α] (seen : List α) (item : α) : List α :=
  if seen.any (· == item) then seen else seen ++ [item]

/-- What a pass over leaves has found so far. -/
structure Gathered where
  types : List TypeExpr
  values : List Constant

/-- A literal leaf adds its constants, and any other leaf adds itself. -/
def Gathered.add (gathered : Gathered) : TypeExpr → Gathered
  | .literal values => { gathered with values := values.foldl addNew gathered.values }
  | t => { gathered with types := addNew gathered.types t }

/-- What is left of the leaves: the types, and behind them one literal with all constants if
there are any. -/
def Gathered.arms (gathered : Gathered) : List TypeExpr :=
  gathered.types ++
    match gathered.values with
    | [] => []
    | values => [.literal values]

/-- A union, or the single type that is left. -/
def Gathered.type (gathered : Gathered) : TypeExpr :=
  match gathered.arms with
  | [t] => t
  | arms => .union arms

/-- The leaves of several types, each normalized on its own, gathered in one pass. -/
def gatherLeaves (concretize : Bool) (types : List TypeExpr) : Gathered :=
  ((types.flatMap leaves).map (normalize concretize)).foldl Gathered.add ⟨[], []⟩

section

variable {α : Type} [BEq α] [PartialEquivBEq α]

/-- Adding what is new keeps the first of equal elements. -/
theorem addNew_eraseDups (items : List α) (item : α) :
    addNew items.eraseDups item = (items ++ [item]).eraseDups := by
  have hSeen : (items.eraseDups.any (· == item)) = items.eraseDups.any (item == ·) :=
    congrArg _ (funext fun _ => BEq.comm)
  rw [addNew, hSeen, List.eraseDups_concat]

/-- Adding one item after the other keeps the first one of equal items. -/
theorem foldl_addNew_eraseDups (seen items : List α) :
    items.foldl addNew seen.eraseDups = (seen ++ items).eraseDups := by
  induction items generalizing seen with
  | nil => rw [List.foldl_nil, List.append_nil]
  | cons item items ih => rw [List.foldl_cons, addNew_eraseDups, ih, List.append_assoc]; rfl

end

theorem Gathered.add_of_not_literal {t : TypeExpr} (h : t.isLiteral = false)
    (gathered : Gathered) :
    gathered.add t = { gathered with types := addNew gathered.types t } := by
  cases t <;> first | rfl | cases h

/-- The pass keeps the first of equal types, and the first of equal constants of all literals. -/
theorem foldl_add (types : List TypeExpr) :
    types.foldl Gathered.add ⟨[], []⟩ =
      ⟨(others types).eraseDups, (constants types).eraseDups⟩ := by
  induction types using List.reverseRecOn with
  | nil => rfl
  | append_singleton types t ih =>
      rw [List.foldl_append, ih, List.foldl_cons, List.foldl_nil, others_append,
        constants_append]
      cases hLiteral : t.isLiteral with
      | false =>
          have hOthers : others [t] = [t] := others_cons_of_not_literal [] hLiteral
          have hConstants : constants [t] = [] := constants_cons_of_not_literal [] hLiteral
          rw [hOthers, hConstants, List.append_nil, Gathered.add_of_not_literal hLiteral]
          exact congrArg (Gathered.mk · _) (addNew_eraseDups (others types) t)
      | true =>
          cases t with
          | literal values =>
              have hOthers : others [.literal values] = [] := rfl
              have hConstants : constants [.literal values] = values := List.append_nil values
              rw [hOthers, hConstants, List.append_nil]
              exact congrArg (Gathered.mk _) (foldl_addNew_eraseDups (constants types) values)
          | _ => cases hLiteral

theorem Gathered.type_eq_ofArms (gathered : Gathered) :
    gathered.type = ofArms gathered.arms := by
  rw [Gathered.type]
  match gathered.arms with
  | [] => rfl
  | [_] => rfl
  | _ :: _ :: _ => rfl

/-- Gathering ends with the arms that merging keeps. -/
theorem arms_foldl_add (types : List TypeExpr) :
    (types.foldl Gathered.add ⟨[], []⟩).arms = kept types := by
  rw [foldl_add, Gathered.arms, kept]
  cases (constants types).eraseDups with
  | nil => exact List.append_nil _
  | cons value values => rfl

/-- A union is normalized as by one pass over the leaves that are reached through nested unions,
names and tags. Of equal types the first one stays, the first ones of all constants make one
literal behind the types, and what is alone stands for itself. -/
theorem normalize_union_gathers (concretize : Bool) (types : List TypeExpr) :
    normalize concretize (.union types) = (gatherLeaves concretize types).type := by
  calc normalize concretize (.union types)
      = merge ((leaves (.union types)).map (normalize concretize)) :=
        normalize_union_eq_merge concretize types
    _ = merge ((types.flatMap leaves).map (normalize concretize)) := by rw [leaves_union]
    _ = (gatherLeaves concretize types).type := by
        rw [merge_eq, ← arms_foldl_add, ← Gathered.type_eq_ofArms, gatherLeaves]

-- An inner union that collapses to a literal, and one that collapses to nothing.
example : normalize false (.union [.union [.literal [.bool true], .literal [.bool true]], .int,
    .union [], .alias "A" (.union [.int, .literal [.bool false]])]) =
      .union [.int, .literal [.bool true, .bool false]] := rfl

end ToolSchema.TypeExpr
