import EbpfHub.Memleak.Contents

/-!
# The walk while the target keeps running

Between any two map calls of `print_outstanding_allocs` the programs may insert
records and delete them.  The cursor of the walk is a key, and a key that is
deleted while it is the cursor sends the walk back to the first one.
-/

namespace EbpfHub
namespace Memleak

open Foundations

/-- The records that the walk adds to its rows. -/
def contributions (minAgeNs : U64) (rounds : List Round) : List Found :=
  counted minAgeNs (found 0 (rounds.map Round.pass))

/-- A record that stays in the map unchanged, is old enough throughout, and has
a stack. -/
structure Stable
    (minAgeNs : U64)
    (rounds : List Round)
    (address : U64)
    (record : AllocInfo) : Prop where
  atNextKey : ∀ round ∈ rounds, round.atNextKey.lookup address = some record
  atLookup : ∀ round ∈ rounds, round.atLookup.lookup address = some record
  old : ∀ round ∈ rounds, record.timestampNs.toNat + minAgeNs.toNat ≤ round.ktime.toNat
  hasStack : 0 ≤ record.stackId.toInt

/-- The records under an address that are counted in a row. -/
def recordsAt (minAgeNs : U64) (address : U64) (entries : List Found) : List AllocInfo :=
  ((counted minAgeNs entries).filter fun entry => entry.key = address).map Found.info

/-- The record contributes once. -/
def CountedOnce
    (minAgeNs : U64)
    (rounds : List Round)
    (address : U64)
    (record : AllocInfo) : Prop :=
  recordsAt minAgeNs address (found 0 (rounds.map Round.pass)) = [record]

instance (rounds : List Round) (minAgeNs address : U64) (record : AllocInfo) :
    Decidable (CountedOnce minAgeNs rounds address record) :=
  inferInstanceAs (Decidable (_ = _))

variable {minAgeNs : U64}

theorem recordsAt_cons_of_ne
    (entry : Found)
    {address : U64}
    (different : entry.key ≠ address)
    (entries : List Found) :
    recordsAt minAgeNs address (entry :: entries) = recordsAt minAgeNs address entries := by
  unfold recordsAt counted
  rw [List.filter_cons]
  split
  · rw [List.filter_cons_of_neg (by simpa using different)]
  · rfl

theorem recordsAt_cons_of_counted
    (entry : Found)
    (aged : entry.Aged minAgeNs)
    (hasStack : entry.HasStack)
    (entries : List Found) :
    recordsAt minAgeNs entry.key (entry :: entries) =
      entry.info :: recordsAt minAgeNs entry.key entries := by
  unfold recordsAt counted
  rw [List.filter_cons_of_pos (by simpa using ⟨aged, hasStack⟩),
    List.filter_cons_of_pos (by simp), List.map_cons]

/-- A stable record stays so in the rest of the walk. -/
theorem Stable.tail
    {round : Round}
    {rounds : List Round}
    {address : U64}
    {record : AllocInfo}
    (stable : Stable minAgeNs (round :: rounds) address record) :
    Stable minAgeNs rounds address record :=
  ⟨(List.forall_mem_cons.mp stable.atNextKey).2, (List.forall_mem_cons.mp stable.atLookup).2,
    (List.forall_mem_cons.mp stable.old).2, stable.hasStack⟩

/-- A complete walk counts a stable record at each visit of its key. -/
theorem recordsAt_of_stable
    {rounds : List Round}
    {address prevKey : U64}
    {record : AllocInfo}
    {report final : Report}
    (stable : Stable minAgeNs rounds address record)
    (complete : walk minAgeNs prevKey report (rounds.map Round.pass) = some (.ok final)) :
    Finishes prevKey (questions rounds) ∧
      recordsAt minAgeNs address (found prevKey (rounds.map Round.pass)) =
        List.replicate ((visits prevKey (questions rounds)).count address) record := by
  induction rounds generalizing prevKey report with
  | nil => cases complete
  | cons round rounds inductionHypothesis =>
      have here : round ∈ round :: rounds := List.mem_cons_self
      simp only [List.map_cons, walk, found, questions_cons, visits, Finishes] at complete ⊢
      simp only [Round.pass] at complete ⊢
      cases nextFault : round.nextKeyFault with
      | some errno =>
          rw [nextFault] at complete
          cases complete
      | none =>
          rw [nextFault] at complete
          cases next : nextKey round.atNextKey.keys prevKey with
          | none => exact ⟨trivial, rfl⟩
          | some key =>
              rw [next] at complete
              dsimp only at complete ⊢
              cases lookupFault : round.lookupFault with
              | some errno =>
                  rw [lookupFault] at complete
                  cases complete
              | none =>
                  rw [lookupFault] at complete
                  dsimp only at complete ⊢
                  cases lookup : round.atLookup.lookup key with
                  | none =>
                      rw [lookup] at complete
                      obtain ⟨finishes, rest⟩ := inductionHypothesis stable.tail complete
                      have different : key ≠ address := by
                        rintro rfl
                        rw [stable.atLookup round here] at lookup
                        cases lookup
                      exact ⟨finishes, by rw [List.count_cons_of_ne different]; exact rest⟩
                  | some info =>
                      rw [lookup] at complete
                      obtain ⟨finishes, rest⟩ := inductionHypothesis stable.tail complete
                      refine ⟨finishes, ?_⟩
                      dsimp only
                      by_cases same : key = address
                      · subst same
                        rw [stable.atLookup round here] at lookup
                        obtain rfl := Option.some.inj lookup
                        rw [List.count_cons_self, List.replicate_succ, ← rest]
                        exact recordsAt_cons_of_counted ⟨key, record, round.ktime⟩
                          (Found.aged_of_old (stable.old round here))
                          (not_lt.mpr stable.hasStack) _
                      · rw [List.count_cons_of_ne same, ← rest]
                        exact recordsAt_cons_of_ne ⟨key, info, round.ktime⟩ same _

/-- In a walk that ends without an error, with keys in some iteration order, the
rows tally the contributions, and a stable record contributes exactly once if
and only if no call of `bpf_map_get_next_key` after the visit of its key finds
the cursor deleted. -/
theorem stable_counted_once_iff
    (before : U64 → U64 → Prop)
    [IsStrictOrder U64 before]
    (qsort : Qsort)
    (allocs : Nat → Allocation)
    (rounds : List Round)
    (ordered : ∀ keys ∈ questions rounds, keys.Pairwise before)
    (printout : Printout)
    (complete : printOutstandingAllocs minAgeNs qsort allocs (rounds.map Round.pass) =
      some (.ok printout)) :
    printout.rows.Perm (byStack.tally ((contributions minAgeNs rounds).map Found.info)) ∧
      ∀ address record, Stable minAgeNs rounds address record →
        (CountedOnce minAgeNs rounds address record ↔
          ¬Rewinds address false 0 (questions rounds)) := by
  refine ⟨(tallies_of_printout complete).1, ?_⟩
  intro address record stable
  obtain ⟨result, walked, finished⟩ := Option.map_eq_some_iff.mp complete
  cases result with
  | error failure => cases finished
  | ok report =>
      obtain ⟨finishes, lookups⟩ := recordsAt_of_stable stable walked
      have present : ∀ keys ∈ questions rounds, address ∈ keys := by
        intro keys member
        obtain ⟨round, inside, rfl⟩ := List.mem_map.mp member
        rw [round.atNextKey.mem_keys_iff, stable.atNextKey round inside]
        exact fun absent => by cases absent
      have start : before 0 address ∨ ∀ keys ∈ questions rounds, 0 ∉ keys := by
        refine .inr fun keys member => ?_
        obtain ⟨round, _, rfl⟩ := List.mem_map.mp member
        exact round.atNextKey.zero_notMem
      rw [← count_visits_eq_one_iff ordered present start finishes]
      unfold CountedOnce
      rw [lookups]
      constructor
      · intro once
        have lengths := congrArg List.length once
        rwa [List.length_replicate] at lengths
      · intro once
        rw [once]
        rfl

/-- A record of 16 bytes from stack 1. -/
def smallRecord : AllocInfo := ⟨16, 0, 1, fun _ => 0, 0⟩

/-- Two blocks from one stack. -/
def twoBlocks : Contents :=
  ⟨[(4096, smallRecord), (8192, smallRecord)], by simp, by simp [Recordable, mapFailed],
    by simp [allocsMaxEntries]⟩

/-- The first of them. -/
def oneBlock : Contents :=
  ⟨[(4096, smallRecord)], by simp, by simp [Recordable, mapFailed],
    by simp [allocsMaxEntries]⟩

/-- The keys in the order of their addresses. -/
def ByAddress (first second : U64) : Prop := first.toNat < second.toNat

instance (first second : U64) : Decidable (ByAddress first second) :=
  inferInstanceAs (Decidable (_ < _))

instance : IsStrictOrder U64 ByAddress where
  irrefl := fun _ => Nat.lt_irrefl _
  trans := fun _ _ _ => Nat.lt_trans

/-- A walk during which nothing happens. -/
def quietRounds : List Round :=
  List.replicate 3 ⟨twoBlocks, twoBlocks, 1000, none, none⟩

theorem stable_counted_once_iff_quietRounds :
    CountedOnce 500 quietRounds 4096 smallRecord := by
  have counted := @stable_counted_once_iff 500 ByAddress _ Qsort.mergeSort
    (fun _ => Allocation.ofInfo smallRecord) quietRounds (by decide) _ rfl
  apply (counted.2 4096 smallRecord ⟨by decide, by decide, by decide, by decide⟩).mpr
  decide

/-- The second block is freed while its address is the cursor. -/
def interruptedRounds : List Round :=
  [ ⟨twoBlocks, twoBlocks, 1000, none, none⟩,
    ⟨twoBlocks, twoBlocks, 1000, none, none⟩,
    ⟨oneBlock, oneBlock, 1000, none, none⟩,
    ⟨oneBlock, oneBlock, 1000, none, none⟩ ]

/-- The first block is counted twice. -/
theorem interruptedRounds_not_counted_once :
    ¬∀ (minAgeNs : U64) (before : U64 → U64 → Prop), IsStrictOrder U64 before →
      ∀ (qsort : Qsort) (allocs : Nat → Allocation) (rounds : List Round),
        (∀ keys ∈ questions rounds, keys.Pairwise before) →
        ∀ printout : Printout,
          printOutstandingAllocs minAgeNs qsort allocs (rounds.map Round.pass) =
            some (.ok printout) →
          ∀ address record, Stable minAgeNs rounds address record →
            CountedOnce minAgeNs rounds address record := by
  intro general
  have once := general 500 ByAddress inferInstance Qsort.mergeSort
    (fun _ => Allocation.ofInfo smallRecord) interruptedRounds (by decide) _ rfl 4096 smallRecord
    ⟨by decide, by decide, by decide, by decide⟩
  exact absurd once (by decide)

end Memleak
end EbpfHub
