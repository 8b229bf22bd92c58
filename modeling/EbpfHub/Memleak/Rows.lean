import EbpfHub.Foundations.Tally
import EbpfHub.Memleak.Report

/-!
# The rows of the report

The loop that merges a record into the array adds it to a tally by stack, so
the rows in use after a walk are the tally of the records that were counted.
-/

namespace EbpfHub
namespace Memleak

open Foundations

/-- Records are grouped by their stack. -/
def byStack : Grouping (BitVec 64) AllocInfo Allocation where
  label := fun info => info.stackId.signExtend 64
  rowLabel := Allocation.stackId
  start := Allocation.ofInfo
  merge := Allocation.merge
  rowLabel_start := fun _ => rfl
  rowLabel_merge := fun _ _ => rfl

namespace Report

/-- A row that is found lies within the range that is searched. -/
theorem findStack_bounds
    {allocs : Nat → Allocation}
    {stackId : BitVec 64}
    {remaining i found : Nat}
    (search : findStack allocs stackId remaining i = some found) :
    i ≤ found ∧ found < i + remaining := by
  induction remaining generalizing i with
  | zero => cases search
  | succ remaining inductionHypothesis =>
      unfold findStack at search
      split at search
      · obtain rfl := Option.some.inj search
        omega
      · have := inductionHypothesis search
        omega

/-- Searching a range for the row of a record and merging or appending there
adds the record to the tally of the range. -/
theorem add_range
    (allocs : Nat → Allocation)
    (info : AllocInfo)
    (remaining i : Nat) :
    byStack.add ((List.range' i remaining).map allocs) info =
      match findStack allocs (info.stackId.signExtend 64) remaining i with
      | some found =>
          (List.range' i remaining).map
            (Function.update allocs found ((allocs found).merge info))
      | none => (List.range' i remaining).map allocs ++ [Allocation.ofInfo info] := by
  induction remaining generalizing i with
  | zero => rfl
  | succ remaining inductionHypothesis =>
      rw [List.range'_succ, List.map_cons]
      unfold Grouping.add findStack
      by_cases here : (allocs i).stackId = info.stackId.signExtend 64
      · have same : byStack.rowLabel (allocs i) = byStack.label info := here
        simp only [if_pos same, if_pos here, List.map_cons, Function.update_self]
        refine congrArg (_ :: ·) (List.map_congr_left fun j member => ?_)
        have later := (List.mem_range'_1.mp member).1
        rw [Function.update_of_ne (by omega)]
      · have different : byStack.rowLabel (allocs i) ≠ byStack.label info := here
        simp only [if_neg different, if_neg here]
        rw [inductionHypothesis (i + 1)]
        cases search : findStack allocs (info.stackId.signExtend 64) remaining (i + 1) with
        | none => rfl
        | some found =>
            have later := (findStack_bounds search).1
            simp only [List.map_cons]
            rw [Function.update_of_ne (by omega)]

/-- Counting a record adds it to the tally of the rows in use. -/
theorem rows_addInfo (report : Report) (info : AllocInfo) :
    (report.addInfo info).rows = byStack.add report.rows info := by
  unfold rows
  have added := add_range report.allocs info report.nrAllocs 0
  rw [← List.range_eq_range'] at added
  rw [added]
  unfold addInfo
  cases findStack report.allocs (info.stackId.signExtend 64) report.nrAllocs 0 with
  | some found => rfl
  | none =>
      simp only [List.range_succ, List.map_append, List.map_cons, List.map_nil,
        Function.update_self]
      refine congrArg (· ++ _) (List.map_congr_left fun i member => ?_)
      have below := List.mem_range.mp member
      rw [Function.update_of_ne (by omega)]

end Report

/-! ## What a walk has looked up -/

/-- A record that a walk has looked up, with its key and the clock reading. -/
structure Found where
  key : U64
  info : AllocInfo
  ktime : U64

namespace Found

/-- The record is old enough for the report. -/
def Aged (minAgeNs : U64) (entry : Found) : Prop :=
  ¬entry.ktime - minAgeNs < entry.info.timestampNs

/-- The record has a stack. -/
def HasStack (entry : Found) : Prop := ¬entry.info.stackId.toInt < 0

instance (minAgeNs : U64) (entry : Found) : Decidable (entry.Aged minAgeNs) :=
  inferInstanceAs (Decidable (¬_))

instance (entry : Found) : Decidable entry.HasStack :=
  inferInstanceAs (Decidable (¬_))

/-- A record that is old enough passes the test by age. -/
theorem aged_of_old
    {minAgeNs : U64}
    {entry : Found}
    (old : entry.info.timestampNs.toNat + minAgeNs.toNat ≤ entry.ktime.toNat) :
    entry.Aged minAgeNs := by
  unfold Aged
  rw [BitVec.not_lt, BitVec.le_def, BitVec.toNat_sub_of_le (by rw [BitVec.le_def]; omega)]
  omega

end Found

/-- The records that a walk looks up. -/
def found : U64 → List Pass → List Found
  | _, [] => []
  | prevKey, pass :: passes =>
      match pass.getNextKey prevKey with
      | .error _ => []
      | .ok currKey =>
          match pass.lookupElem currKey with
          | .error .enoent => found currKey passes
          | .error (.other _) => []
          | .ok info => ⟨currKey, info, pass.ktime⟩ :: found currKey passes

/-- The records that a walk counts in a row. -/
def counted (minAgeNs : U64) (entries : List Found) : List Found :=
  entries.filter fun entry => entry.Aged minAgeNs ∧ entry.HasStack

/-- The aged records that a walk cannot count in a row. -/
def stackless (minAgeNs : U64) (entries : List Found) : List Found :=
  entries.filter fun entry => entry.Aged minAgeNs ∧ ¬entry.HasStack

/-- The rows are the tally of the counted records, and the counters count the
records without a stack. -/
structure Tallies (minAgeNs : U64) (report : Report) (entries : List Found) : Prop where
  rows : report.rows = byStack.tally ((counted minAgeNs entries).map Found.info)
  nrMissingStacks : report.nrMissingStacks =
    (stackless minAgeNs entries).countP fun entry => stackIdErr entry.info.stackId
  nrCollisionStacks : report.nrCollisionStacks =
    (stackless minAgeNs entries).countP fun entry => stackIdCollision entry.info.stackId

theorem counted_append_singleton (minAgeNs : U64) (entries : List Found) (entry : Found) :
    counted minAgeNs (entries ++ [entry]) =
      if entry.Aged minAgeNs ∧ entry.HasStack then counted minAgeNs entries ++ [entry]
      else counted minAgeNs entries :=
  filter_append_singleton (fun entry : Found => entry.Aged minAgeNs ∧ entry.HasStack) entries entry

theorem stackless_append_singleton (minAgeNs : U64) (entries : List Found) (entry : Found) :
    stackless minAgeNs (entries ++ [entry]) =
      if entry.Aged minAgeNs ∧ ¬entry.HasStack then stackless minAgeNs entries ++ [entry]
      else stackless minAgeNs entries :=
  filter_append_singleton (fun entry : Found => entry.Aged minAgeNs ∧ ¬entry.HasStack) entries entry

theorem Tallies.start (minAgeNs : U64) (allocs : Nat → Allocation) :
    Tallies minAgeNs (Report.start allocs) [] :=
  ⟨rfl, rfl, rfl⟩

/-- A visit tallies one more record. -/
theorem Tallies.visit
    {minAgeNs : U64}
    {report : Report}
    {entries : List Found}
    (tallies : Tallies minAgeNs report entries)
    (entry : Found) :
    Tallies minAgeNs (report.visit minAgeNs entry.ktime entry.info) (entries ++ [entry]) := by
  unfold Report.visit
  by_cases young : entry.ktime - minAgeNs < entry.info.timestampNs
  · have unaged : ¬entry.Aged minAgeNs := not_not.mpr young
    rw [if_pos young]
    refine ⟨?_, ?_, ?_⟩
    · rw [counted_append_singleton, if_neg fun both => unaged both.1, tallies.rows]
    · rw [stackless_append_singleton, if_neg fun both => unaged both.1, tallies.nrMissingStacks]
    · rw [stackless_append_singleton, if_neg fun both => unaged both.1, tallies.nrCollisionStacks]
  · have aged : entry.Aged minAgeNs := young
    rw [if_neg young]
    by_cases negative : entry.info.stackId.toInt < 0
    · have noStack : ¬entry.HasStack := not_not.mpr negative
      have sameCounted : counted minAgeNs (entries ++ [entry]) = counted minAgeNs entries := by
        rw [counted_append_singleton, if_neg fun both => noStack both.2]
      have oneMore : stackless minAgeNs (entries ++ [entry]) =
          stackless minAgeNs entries ++ [entry] := by
        rw [stackless_append_singleton, if_pos ⟨aged, noStack⟩]
      rw [if_pos negative]
      refine ⟨?_, ?_, ?_⟩
      · rw [sameCounted]
        exact tallies.rows
      · rw [oneMore, List.countP_append, List.countP_singleton, ← tallies.nrMissingStacks]
        simp only [decide_eq_true_eq]
      · rw [oneMore, List.countP_append, List.countP_singleton, ← tallies.nrCollisionStacks]
        simp only [decide_eq_true_eq]
    · have stack : entry.HasStack := negative
      rw [if_neg negative]
      refine ⟨?_, ?_, ?_⟩
      · rw [counted_append_singleton, if_pos ⟨aged, stack⟩, Report.rows_addInfo, tallies.rows,
          List.map_append, List.map_singleton, Grouping.tally_append_singleton]
      · rw [stackless_append_singleton, if_neg fun both => both.2 stack, ← tallies.nrMissingStacks]
        unfold Report.addInfo
        split <;> rfl
      · rw [stackless_append_singleton, if_neg fun both => both.2 stack,
          ← tallies.nrCollisionStacks]
        unfold Report.addInfo
        split <;> rfl

/-- A complete walk tallies what it looks up after what has been tallied before. -/
theorem Tallies.walk
    {minAgeNs prevKey : U64}
    {report final : Report}
    {passes : List Pass}
    {entries : List Found}
    (tallies : Tallies minAgeNs report entries)
    (complete : Memleak.walk minAgeNs prevKey report passes = some (.ok final)) :
    Tallies minAgeNs final (entries ++ found prevKey passes) := by
  induction passes generalizing prevKey report entries with
  | nil => cases complete
  | cons pass passes inductionHypothesis =>
      unfold Memleak.walk at complete
      unfold found
      cases next : pass.getNextKey prevKey with
      | error errno =>
          rw [next] at complete
          cases errno with
          | enoent =>
              cases complete
              rw [List.append_nil]
              exact tallies
          | other errno => cases complete
      | ok currKey =>
          rw [next] at complete
          dsimp only at complete ⊢
          cases lookup : pass.lookupElem currKey with
          | error errno =>
              rw [lookup] at complete
              cases errno with
              | enoent => exact inductionHypothesis tallies complete
              | other errno => cases complete
          | ok info =>
              rw [lookup] at complete
              have rest := inductionHypothesis (tallies.visit ⟨currKey, info, pass.ktime⟩) complete
              rwa [List.append_assoc] at rest

/-- What a complete report says of the records that its walk has looked up. -/
theorem tallies_of_printout
    {minAgeNs : U64}
    {qsort : Qsort}
    {allocs : Nat → Allocation}
    {passes : List Pass}
    {printout : Printout}
    (printed : printOutstandingAllocs minAgeNs qsort allocs passes = some (.ok printout)) :
    printout.rows.Perm
        (byStack.tally ((counted minAgeNs (found 0 passes)).map Found.info)) ∧
      printout.rows.Pairwise (fun x y => y.size ≤ x.size) ∧
      printout.nrMissingStacks =
        (stackless minAgeNs (found 0 passes)).countP (fun entry =>
          stackIdErr entry.info.stackId) ∧
      printout.nrCollisionStacks =
        (stackless minAgeNs (found 0 passes)).countP (fun entry =>
          stackIdCollision entry.info.stackId) := by
  unfold printOutstandingAllocs at printed
  obtain ⟨result, walked, finished⟩ := Option.map_eq_some_iff.mp printed
  cases result with
  | error failure => cases finished
  | ok report =>
      obtain rfl := Except.ok.inj finished
      have tallies := (Tallies.start minAgeNs allocs).walk walked
      rw [List.nil_append] at tallies
      refine ⟨?_, ?_, tallies.nrMissingStacks, tallies.nrCollisionStacks⟩
      · rw [← tallies.rows]
        exact qsort.perm report.rows
      · exact (qsort.sorted report.rows).imp fun ordered =>
          (allocSizeCompare_nonpos_iff _ _).mp ordered

end Memleak
end EbpfHub
