import EbpfHub.Foundations.Cursor
import EbpfHub.Memleak.Provenance
import EbpfHub.Memleak.Rows

/-!
# The map as the walk finds it

User space reads the map `allocs` through `bpf_map_get_next_key`, which follows
some order of the keys, and `bpf_map_lookup_elem`.  The map may have changed
between any two of these calls.
-/

namespace EbpfHub
namespace Memleak

open Foundations

/-- The map `allocs` as user space sees it: its entries in some order. -/
structure Contents where
  entries : List (U64 × AllocInfo)
  distinct : (entries.map Prod.fst).Nodup
  recordable : ∀ key ∈ entries.map Prod.fst, Recordable key
  bounded : entries.length ≤ allocsMaxEntries

/-- No handler stores a record under an address that is no block. -/
theorem recordable_of_mem_keys
    (rodata : Rodata)
    (events : List Event) :
    ∀ key ∈ (runEvents rodata events).allocs.keys, Recordable key := by
  have invariant : ∀ key info, (runEvents rodata events).allocs.lookup key = some info →
      Recordable key := by
    apply run_invariant fun maps : Maps => ∀ key info, maps.allocs.lookup key = some info →
      Recordable key
    · intro maps event recordable key info present
      rcases allocs_step present with inserts | before
      · obtain ⟨_, _, _, recordableKey, _⟩ := of_insertion inserts
        exact recordableKey
      · exact recordable key info before
    · intro key info present
      rw [Maps.empty, BoundedMap.lookup_empty] at present
      cases present
  intro key member
  obtain ⟨info, present⟩ := (BoundedMap.mem_keys_iff _ key).mp member
  exact invariant key info present

namespace Contents

/-- The keys in their order. -/
def keys (contents : Contents) : List U64 := contents.entries.map Prod.fst

/-- `bpf_map_lookup_elem` of a key. -/
def lookup (contents : Contents) (key : U64) : Option AllocInfo := contents.entries.lookup key

theorem mem_keys_iff (contents : Contents) (key : U64) :
    key ∈ contents.keys ↔ contents.lookup key ≠ none := by
  rw [lookup, Ne, List.lookup_eq_none_iff]
  simp only [keys, List.mem_map, bne_iff_ne, ne_eq, not_forall, not_not]
  constructor
  · rintro ⟨entry, member, rfl⟩
    exact ⟨entry, member, rfl⟩
  · rintro ⟨entry, member, same⟩
    exact ⟨entry, member, same.symm⟩

/-- A key has the record of its only entry. -/
theorem lookup_of_mem
    (contents : Contents)
    {key : U64}
    {info : AllocInfo}
    (member : (key, info) ∈ contents.entries) :
    contents.lookup key = some info := by
  obtain ⟨entries, distinct, recordable, bounded⟩ := contents
  unfold lookup
  dsimp only at member ⊢
  clear recordable bounded
  induction entries with
  | nil => cases member
  | cons entry entries inductionHypothesis =>
      obtain ⟨new, rest⟩ := List.nodup_cons.mp distinct
      rcases List.mem_cons.mp member with rfl | later
      · simp
      · have different : key ≠ entry.1 := by
          rintro rfl
          exact new (List.mem_map.mpr ⟨_, later, rfl⟩)
        rw [List.lookup_cons, beq_false_of_ne different]
        exact inductionHypothesis rest later

/-- The walk starts with a cursor that is no key. -/
theorem zero_notMem (contents : Contents) : 0 ∉ contents.keys := by
  intro member
  exact (contents.recordable 0 member).1 rfl

/-- The contents that a run leaves, with the entries in some order. -/
def ofRun
    (rodata : Rodata)
    (events : List Event)
    (entries : List (U64 × AllocInfo))
    (distinct : (entries.map Prod.fst).Nodup)
    (complete : ∀ key info, (key, info) ∈ entries ↔
      (runEvents rodata events).allocs.lookup key = some info) : Contents where
  entries := entries
  distinct := distinct
  recordable := by
    intro key member
    obtain ⟨entry, inside, rfl⟩ := List.mem_map.mp member
    apply recordable_of_mem_keys rodata events
    rw [BoundedMap.mem_keys_iff]
    exact ⟨entry.2, (complete entry.1 entry.2).mp inside⟩
  bounded := by
    have inside : (entries.map Prod.fst).toFinset ⊆ (runEvents rodata events).allocs.keys := by
      intro key member
      obtain ⟨entry, inside, rfl⟩ := List.mem_map.mp (List.mem_toFinset.mp member)
      rw [BoundedMap.mem_keys_iff]
      exact ⟨entry.2, (complete entry.1 entry.2).mp inside⟩
    calc
      entries.length = (entries.map Prod.fst).toFinset.card := by
        rw [List.toFinset_card_of_nodup distinct, List.length_map]
      _ ≤ (runEvents rodata events).allocs.keys.card := Finset.card_le_card inside
      _ ≤ allocsMaxEntries := (runEvents rodata events).allocs.keys_card_allowed

end Contents

/-- One pass of the walk: what the map holds at each of its two calls, the
clock, and the errors that the calls meet. -/
structure Round where
  atNextKey : Contents
  atLookup : Contents
  ktime : U64
  nextKeyFault : Option Nat
  lookupFault : Option Nat

/-- The answers of the map in a round. -/
def Round.pass (round : Round) : Pass where
  getNextKey := fun prevKey =>
    match round.nextKeyFault with
    | some errno => .error (.other errno)
    | none =>
        match nextKey round.atNextKey.keys prevKey with
        | none => .error .enoent
        | some key => .ok key
  lookupElem := fun key =>
    match round.lookupFault with
    | some errno => .error (.other errno)
    | none =>
        match round.atLookup.lookup key with
        | none => .error .enoent
        | some info => .ok info
  ktime := round.ktime

/-- The keys that the calls of `bpf_map_get_next_key` find. -/
def questions (rounds : List Round) : List (List U64) :=
  rounds.map fun round => round.atNextKey.keys

@[simp] theorem questions_cons (round : Round) (rounds : List Round) :
    questions (round :: rounds) = round.atNextKey.keys :: questions rounds := rfl

end Memleak
end EbpfHub
