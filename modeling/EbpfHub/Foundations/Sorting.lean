import Mathlib.Data.List.Sort

/-!
# Sorting by a comparison

`qsort` with a function that compares two entries as `strcmp` does: it permutes
the entries and puts none before one that compares smaller.
-/

namespace Foundations

/-- The comparison orders all entries. -/
structure Comparison (cmp : α → α → Int) : Prop where
  total : ∀ x y, cmp x y ≤ 0 ∨ cmp y x ≤ 0
  trans : ∀ x y z, cmp x y ≤ 0 → cmp y z ≤ 0 → cmp x z ≤ 0

/-- `qsort`.  It promises no order among entries that compare equal. -/
structure Sorter (α : Type u) where
  sort : (α → α → Int) → List α → List α
  perm : ∀ cmp entries, (sort cmp entries).Perm entries
  sorted : ∀ cmp entries, Comparison cmp →
    (sort cmp entries).Pairwise fun x y => cmp x y ≤ 0

/-- An insertion sort is one. -/
def Sorter.insertion (α : Type u) : Sorter α where
  sort := fun cmp entries => entries.insertionSort fun x y => cmp x y ≤ 0
  perm := fun cmp entries => List.perm_insertionSort _ entries
  sorted := by
    intro cmp entries comparison
    have total : Std.Total fun x y => cmp x y ≤ 0 := ⟨comparison.total⟩
    have trans : IsTrans α fun x y => cmp x y ≤ 0 := ⟨comparison.trans⟩
    exact List.pairwise_insertionSort _ entries

end Foundations
