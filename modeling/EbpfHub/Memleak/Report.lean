import EbpfHub.Memleak.Records
import Mathlib.Data.List.Sort

/-!
# The report of outstanding allocations

`print_outstanding_allocs` of `memleak.c`: a walk over the keys of the map
`allocs`, the merge of the aged records into the rows of a global array, one row
for each stack, and the array that is sorted and handed to
`print_stack_frames`.
-/

namespace EbpfHub
namespace Memleak

/-- `struct allocation`.  The list `allocations` is `NULL` in every row. -/
structure Allocation where
  stackId : BitVec 64
  size : U64
  count : U64
  manualStack : ManualStack
  manualStackCnt : Int
  deriving DecidableEq

/-- The row that a record starts. -/
def Allocation.ofInfo (info : AllocInfo) : Allocation where
  stackId := info.stackId.signExtend 64
  size := info.size
  count := 1
  manualStack :=
    copyManualStack info.manualStack info.manualStackCnt
      (List.finRange maxManualStackDepth) fun _ => 0
  manualStackCnt := info.manualStackCnt

/-- A row with one more record. -/
def Allocation.merge (alloc : Allocation) (info : AllocInfo) : Allocation :=
  { alloc with size := alloc.size + info.size, count := alloc.count + 1 }

/-- `STACK_ID_EFAULT`. -/
def stackIdEfault (stackId : BitVec 32) : Prop := stackId.toInt = -14

instance (stackId : BitVec 32) : Decidable (stackIdEfault stackId) :=
  inferInstanceAs (Decidable (_ = _))

/-- `STACK_ID_ERR`. -/
def stackIdErr (stackId : BitVec 32) : Prop := stackId.toInt < 0 ∧ ¬stackIdEfault stackId

instance (stackId : BitVec 32) : Decidable (stackIdErr stackId) :=
  inferInstanceAs (Decidable (_ ∧ _))

/-- `STACK_ID_COLLISION`. -/
def stackIdCollision (stackId : BitVec 32) : Prop := stackId.toInt = -17

instance (stackId : BitVec 32) : Decidable (stackIdCollision stackId) :=
  inferInstanceAs (Decidable (_ = _))

/-! ## One record -/

/-- The global array `allocs` and the counters of `print_outstanding_allocs`. -/
structure Report where
  allocs : Nat → Allocation
  nrAllocs : Nat
  nrMissingStacks : Nat
  nrCollisionStacks : Nat

namespace Report

/-- The report at the start of a walk, over whatever the array holds. -/
def start (allocs : Nat → Allocation) : Report where
  allocs := allocs
  nrAllocs := 0
  nrMissingStacks := 0
  nrCollisionStacks := 0

/-- The rows in use. -/
def rows (report : Report) : List Allocation :=
  (List.range report.nrAllocs).map report.allocs

/-- The loop that looks for the row of a stack, from the index on. -/
def findStack (allocs : Nat → Allocation) (stackId : BitVec 64) : Nat → Nat → Option Nat
  | 0, _ => none
  | remaining + 1, i =>
      if (allocs i).stackId = stackId then some i else findStack allocs stackId remaining (i + 1)

/-- Count a record with a valid stack. -/
def addInfo (report : Report) (info : AllocInfo) : Report :=
  match findStack report.allocs (info.stackId.signExtend 64) report.nrAllocs 0 with
  | some i =>
      { report with
        allocs := Function.update report.allocs i ((report.allocs i).merge info) }
  | none =>
      { report with
        allocs := Function.update report.allocs report.nrAllocs (Allocation.ofInfo info)
        nrAllocs := report.nrAllocs + 1 }

/-- The body of the walk for a record that was looked up. -/
def visit (minAgeNs ktime : U64) (report : Report) (info : AllocInfo) : Report :=
  if ktime - minAgeNs < info.timestampNs then report
  else if info.stackId.toInt < 0 then
    { report with
      nrMissingStacks := report.nrMissingStacks + if stackIdErr info.stackId then 1 else 0
      nrCollisionStacks :=
        report.nrCollisionStacks + if stackIdCollision info.stackId then 1 else 0 }
  else report.addInfo info

end Report

/-! ## The walk -/

/-- What `errno` says after a failed map call. -/
inductive Errno
  | enoent
  | other (errno : Nat)

/-- The answers to the calls of one pass of the loop. -/
structure Pass where
  /-- `bpf_map_get_next_key`. -/
  getNextKey : U64 → Except Errno U64
  /-- `bpf_map_lookup_elem`. -/
  lookupElem : U64 → Except Errno AllocInfo
  /-- `get_ktime_ns()`. -/
  ktime : U64

/-- The loop of `print_outstanding_allocs`.  It ends with its report, or with
the `errno` and the report so far, or needs more passes. -/
def walk (minAgeNs : U64) : U64 → Report → List Pass → Option (Except (Nat × Report) Report)
  | _, _, [] => none
  | prevKey, report, pass :: passes =>
      match pass.getNextKey prevKey with
      | .error .enoent => some (.ok report)
      | .error (.other errno) => some (.error (errno, report))
      | .ok currKey =>
          match pass.lookupElem currKey with
          | .error .enoent => walk minAgeNs currKey report passes
          | .error (.other errno) => some (.error (errno, report))
          | .ok info => walk minAgeNs currKey (report.visit minAgeNs pass.ktime info) passes

/-! ## The output -/

/-- `alloc_size_compare`. -/
def allocSizeCompare (x y : Allocation) : Int :=
  if x.size > y.size then -1
  else if x.size < y.size then 1
  else 0

/-- `qsort` with `alloc_size_compare`: it permutes the rows, puts none before a
row that compares smaller, and promises no order among equal ones. -/
structure Qsort where
  sort : List Allocation → List Allocation
  perm : ∀ rows, (sort rows).Perm rows
  sorted : ∀ rows, (sort rows).Pairwise fun x y => allocSizeCompare x y ≤ 0

/-- Rows that compare in order have non-increasing sizes. -/
theorem allocSizeCompare_nonpos_iff (x y : Allocation) :
    allocSizeCompare x y ≤ 0 ↔ y.size ≤ x.size := by
  unfold allocSizeCompare
  rw [← BitVec.not_lt]
  split
  · next larger =>
    refine iff_of_true (by decide) fun smaller => ?_
    exact absurd (BitVec.lt_asymm larger) (not_not.mpr smaller)
  · split
    · next smaller => exact iff_of_false (by decide) (not_not.mpr smaller)
    · next equal => exact iff_of_true (by decide) equal

/-- A merge sort is a `qsort`. -/
def Qsort.mergeSort : Qsort where
  sort := fun rows => rows.mergeSort fun x y => decide (allocSizeCompare x y ≤ 0)
  perm := fun rows => List.mergeSort_perm rows _
  sorted := by
    intro rows
    have ordered : (rows.mergeSort fun x y => decide (allocSizeCompare x y ≤ 0)).Pairwise
        fun x y => decide (allocSizeCompare x y ≤ 0) = true := by
      apply List.pairwise_mergeSort
      · intro x y z first second
        simp only [decide_eq_true_eq, allocSizeCompare_nonpos_iff] at first second ⊢
        exact BitVec.le_trans second first
      · intro x y
        simp only [Bool.or_eq_true, decide_eq_true_eq, allocSizeCompare_nonpos_iff]
        exact BitVec.le_total y.size x.size
    simpa only [decide_eq_true_eq] using ordered

/-- What a complete walk hands to `print_stack_frames` and reports about
missing stacks, and the array that it leaves. -/
structure Printout where
  rows : List Allocation
  nrMissingStacks : Nat
  nrCollisionStacks : Nat
  allocs : Nat → Allocation

/-- The array with the sorted rows, whose stack identifiers are then cleared. -/
def clearedRows (rows : List Allocation) (allocs : Nat → Allocation) (i : Nat) : Allocation :=
  match rows[i]? with
  | some row => { row with stackId := 0 }
  | none => allocs i

/-- `print_outstanding_allocs`. -/
def printOutstandingAllocs
    (minAgeNs : U64)
    (qsort : Qsort)
    (allocs : Nat → Allocation)
    (passes : List Pass) : Option (Except (Nat × Report) Printout) :=
  (walk minAgeNs 0 (Report.start allocs) passes).map fun result =>
    result.map fun report =>
      { rows := qsort.sort report.rows
        nrMissingStacks := report.nrMissingStacks
        nrCollisionStacks := report.nrCollisionStacks
        allocs := clearedRows (qsort.sort report.rows) report.allocs }

/-- The first frames of a manually captured stack, as many as the count says. -/
def manualFrames (manualStack : ManualStack) (cnt : Int) : List U64 :=
  ((List.finRange maxManualStackDepth).filter fun i => (i.val : Int) < cnt).map manualStack

/-- The manual stack that `print_stack_frames` prints for a row, if any. -/
def Allocation.printedManualStack (alloc : Allocation) : Option (Int × List U64) :=
  if alloc.manualStackCnt > 0 then
    some (alloc.manualStackCnt, manualFrames alloc.manualStack alloc.manualStackCnt)
  else none

end Memleak
end EbpfHub
