import ToolSchema.TypeExpr.Normal

/-! Induction over types, with one hypothesis for each type directly below, and
the leaves that a type comes down to. -/
namespace ToolSchema.TypeExpr

/-- The recursor of the nested type, with lists of children read as
membership. -/
@[elab_as_elim]
theorem induction {motive : TypeExpr → Prop}
    (any : motive .any) (null : motive .null) (int : motive .int) (float : motive .float)
    (str : motive .str) (bool : motive .bool)
    (named : ∀ name target, motive target → motive (.alias name target))
    (tagged : ∀ inner tags, motive inner → motive (.tagged inner tags))
    (literal : ∀ values, motive (.literal values))
    (union : ∀ arms, (∀ arm ∈ arms, motive arm) → motive (.union arms))
    (generic : ∀ origin args, (∀ arg ∈ args, motive arg) → motive (.generic origin args))
    (ellipsis : motive .ellipsis) (classRef : ∀ ref, motive (.classRef ref)) (t : TypeExpr) :
    motive t :=
  @TypeExpr.rec motive (fun types => ∀ t ∈ types, motive t)
    any null int float str bool named tagged literal union generic ellipsis classRef
    (fun _ hm => nomatch hm)
    (fun _ _ hHead hTail => List.forall_mem_cons.mpr ⟨hHead, hTail⟩)
    t

mutual

/-- The types that a type comes down to through unions, names and tags, from
left to right. -/
def leaves : TypeExpr → List TypeExpr
  | .alias _ target => leaves target
  | .tagged inner _ => leaves inner
  | .union arms => leavesAll arms
  | t => [t]

def leavesAll : List TypeExpr → List TypeExpr
  | [] => []
  | t :: more => leaves t ++ leavesAll more

end

/-- A type that is not a union and has no name or tags around it. -/
def isLeaf : TypeExpr → Bool
  | .alias _ _ => false
  | .tagged _ _ => false
  | .union _ => false
  | _ => true

/-- The leaves of a union are those of its arms. -/
theorem leaves_union (arms : List TypeExpr) : leaves (.union arms) = arms.flatMap leaves := by
  rw [leaves]
  induction arms with
  | nil => rfl
  | cons arm arms ih => rw [leavesAll, ih, List.flatMap_cons]

theorem leaves_of_isLeaf {t : TypeExpr} (h : t.isLeaf = true) : leaves t = [t] := by
  induction t using TypeExpr.induction with
  | named _ _ _ => cases h
  | tagged _ _ _ => cases h
  | union _ _ => cases h
  | _ => rfl

theorem arms_of_isLeaf {t : TypeExpr} (h : t.isLeaf = true) : arms t = [t] := by
  induction t using TypeExpr.induction with
  | named _ _ _ => cases h
  | tagged _ _ _ => cases h
  | union _ _ => cases h
  | _ => rfl

/-- Nothing below a leaf counts as one. -/
theorem isLeaf_of_mem_leaves {t leaf : TypeExpr} (h : leaf ∈ leaves t) : leaf.isLeaf = true := by
  induction t using TypeExpr.induction with
  | named _ _ ih => exact ih h
  | tagged _ _ ih => exact ih h
  | union arms ih =>
      rw [leaves_union] at h
      obtain ⟨arm, hArm, hLeaf⟩ := List.mem_flatMap.mp h
      exact ih arm hArm hLeaf
  | _ => cases h with
    | head => rfl
    | tail _ h => cases h

end ToolSchema.TypeExpr
