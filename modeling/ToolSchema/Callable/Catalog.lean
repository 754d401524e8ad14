import ToolSchema.Callable.Basic

/-!
All declarations, the newest first. The position of a declaration is the number of those that are
older, so it stays the same when more are added, and a class can refer only to older ones.
-/

namespace ToolSchema

abbrev Catalog := List Callable

namespace Catalog

def get? (catalog : Catalog) (index : Nat) : Option Callable :=
  match catalog with
  | [] => none
  | callable :: older => if index = older.length then some callable else Catalog.get? older index

theorem lt_length_of_get? {catalog : Catalog} {index : Nat} {callable : Callable}
    (h : catalog.get? index = some callable) : index < catalog.length := by
  induction catalog with
  | nil => cases h
  | cons first older ih =>
    rw [Catalog.get?] at h
    rw [List.length_cons]
    split at h
    · next hHere => omega
    · exact Nat.lt_succ_of_lt (ih h)

theorem exists_get?_of_lt {catalog : Catalog} {index : Nat} (h : index < catalog.length) :
    ∃ callable, catalog.get? index = some callable := by
  induction catalog with
  | nil => exact absurd h (Nat.not_lt_zero _)
  | cons first older ih =>
    rw [List.length_cons] at h
    rw [Catalog.get?]
    split
    · exact ⟨first, rfl⟩
    · next hOlder => exact ih (by omega)

/-- A declaration keeps its position. -/
theorem get?_cons_of_get? {catalog : Catalog} {index : Nat} {callable : Callable}
    (h : catalog.get? index = some callable) (newer : Callable) :
    Catalog.get? (newer :: catalog) index = some callable := by
  have hBound := lt_length_of_get? h
  rw [Catalog.get?, if_neg (by omega), h]

/-- The declarations of the built-in classes for dates, times and durations. -/
def builtin : Catalog := (TemporalKind.all.map Callable.temporal).reverse

def builtinNames : Entries TypeExpr :=
  TemporalKind.all.mapIdx fun index kind => (kind.name, .classRef ⟨kind.name, index⟩)

end Catalog

end ToolSchema
