import EbpfHub.Foundations.BoundedMap
import Mathlib.Algebra.BigOperators.Group.Finset.Basic
import Mathlib.Algebra.Order.BigOperators.Group.Finset

/-!
# Totals over the entries of a bounded map

Every entry has a weight, and the total of a map is the sum of the weights.
Changing one key changes the total by the weight of the new entry less that of
the old one.
-/

namespace Foundations
namespace BoundedMap

variable {κ : Type u} {ν : Type v} {limit : Limit} [DecidableEq κ]

section Monoid

variable {M : Type w} [AddCommMonoid M]

/-- The sum of the weights of all entries. -/
def total (map : BoundedMap κ ν limit) (weight : ν → M) : M :=
  ∑ key ∈ map.keys, (map.lookup key).elim 0 weight

/-- Keys without an entry add nothing to the total. -/
theorem total_eq_sum
    {map : BoundedMap κ ν limit}
    {keys : Finset κ}
    (inside : map.keys ⊆ keys)
    (weight : ν → M) :
    map.total weight = ∑ key ∈ keys, (map.lookup key).elim 0 weight := by
  apply Finset.sum_subset inside
  intro key _ absent
  rw [(map.lookup_eq_none_iff key).mpr absent, Option.elim_none]

@[simp] theorem total_empty (weight : ν → M) :
    (empty : BoundedMap κ ν limit).total weight = 0 :=
  Finset.sum_empty

/-- The total after a change of one key. -/
theorem total_of_lookup_update
    {before after : BoundedMap κ ν limit}
    {key : κ}
    {value : Option ν}
    (updated : after.lookup = Function.update before.lookup key value)
    (weight : ν → M) :
    after.total weight + (before.lookup key).elim 0 weight =
      before.total weight + value.elim 0 weight := by
  have member : key ∈ insert key (before.keys ∪ after.keys) := Finset.mem_insert_self ..
  have beforeInside : before.keys ⊆ insert key (before.keys ∪ after.keys) :=
    Finset.subset_union_left.trans (Finset.subset_insert ..)
  have afterInside : after.keys ⊆ insert key (before.keys ∪ after.keys) :=
    Finset.subset_union_right.trans (Finset.subset_insert ..)
  rw [total_eq_sum beforeInside, total_eq_sum afterInside]
  generalize insert key (before.keys ∪ after.keys) = keys at member
  have others : ∑ other ∈ keys.erase key, (after.lookup other).elim 0 weight =
      ∑ other ∈ keys.erase key, (before.lookup other).elim 0 weight := by
    apply Finset.sum_congr rfl
    intro other inErase
    rw [updated, Function.update_of_ne (Finset.ne_of_mem_erase inErase)]
  rw [← Finset.add_sum_erase keys _ member, ← Finset.add_sum_erase keys _ member, others,
    updated, Function.update_self]
  ac_rfl

/-- A homomorphism of weights is one of totals. -/
theorem map_total
    {N : Type w'}
    [AddCommMonoid N]
    (homomorphism : M →+ N)
    (map : BoundedMap κ ν limit)
    (weight : ν → M) :
    homomorphism (map.total weight) = map.total fun value => homomorphism (weight value) := by
  rw [total, map_sum]
  apply Finset.sum_congr rfl
  intro key _
  cases map.lookup key with
  | none => exact map_zero homomorphism
  | some value => rfl

end Monoid

/-- No entry weighs more than all together. -/
theorem weight_le_total
    {map : BoundedMap κ ν limit}
    {key : κ}
    {value : ν}
    (present : map.lookup key = some value)
    (weight : ν → Nat) :
    weight value ≤ map.total weight := by
  have member : key ∈ map.keys := (map.mem_keys_iff key).mpr ⟨value, present⟩
  calc
    weight value = (map.lookup key).elim 0 weight := by rw [present, Option.elim_some]
    _ ≤ map.total weight := by
        rw [total]
        exact Finset.single_le_sum
          (f := fun other => (map.lookup other).elim 0 weight) (fun _ _ => Nat.zero_le _) member

/-- Entries that weigh at most one weigh at most as much as the map may have
entries. -/
theorem total_le_limit
    {bound : Nat}
    {map : BoundedMap κ ν (some bound)}
    {weight : ν → Nat}
    (light : ∀ value, weight value ≤ 1) :
    map.total weight ≤ bound := by
  have each : ∀ key ∈ map.keys, (map.lookup key).elim 0 weight ≤ 1 := by
    intro key _
    cases map.lookup key with
    | none => exact Nat.zero_le 1
    | some value => exact light value
  calc
    map.total weight ≤ map.keys.card • 1 := Finset.sum_le_card_nsmul _ _ _ each
    _ = map.keys.card := by simp
    _ ≤ bound := map.keys_card_allowed

end BoundedMap
end Foundations
