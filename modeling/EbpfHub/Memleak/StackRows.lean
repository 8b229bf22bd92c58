import EbpfHub.Memleak.Aggregation

/-!
# The captured stack of each leak

Rows are merged and filtered by the identifier that `bpf_get_stackid` returned,
and `print_stack_frames` prints for a row the stack that was captured by hand
for the first record in it.
-/

namespace EbpfHub
namespace Memleak

open Foundations

/-- The captured stack of a record: its count and that many frames. -/
def AllocInfo.capturedStack (info : AllocInfo) : Int × List U64 :=
  (info.manualStackCnt, manualFrames info.manualStack info.manualStackCnt)

deriving instance DecidableEq for Found

/-- The records that the walk counts in a row. -/
def members (minAgeNs : U64) (entries : List Found) (row : Allocation) : List Found :=
  (counted minAgeNs entries).filter fun entry =>
    entry.info.stackId.signExtend 64 = row.stackId

/-- The rows that count a record. -/
def rowsWith
    (minAgeNs : U64)
    (entries : List Found)
    (printout : Printout)
    (entry : Found) : List Allocation :=
  printout.rows.filter fun row => entry ∈ members minAgeNs entries row

/-- The age of a record at its visit is at least the minimum. -/
def Found.Old (minAgeNs : U64) (entry : Found) : Prop :=
  entry.info.timestampNs.toNat + minAgeNs.toNat ≤ entry.ktime.toNat

instance (minAgeNs : U64) (entry : Found) : Decidable (entry.Old minAgeNs) :=
  inferInstanceAs (Decidable (_ ≤ _))

/-- Every old record with a captured stack is counted in exactly one row, and
that row is printed with the captured stack of the record. -/
def UnderOwnStacks (minAgeNs : U64) (entries : List Found) (printout : Printout) : Prop :=
  ∀ entry ∈ entries, entry.Old minAgeNs → 0 < entry.info.manualStackCnt →
    ∃ row, rowsWith minAgeNs entries printout entry = [row] ∧
      row.printedManualStack = some entry.info.capturedStack

/-- The first record past the filter by age that has the given identifier. -/
def firstWithStackId (minAgeNs : U64) (entries : List Found) (stackId : BitVec 32) :
    Option Found :=
  entries.find? fun entry => entry.Aged minAgeNs ∧ entry.info.stackId = stackId

/-- Every old record with a captured stack has a valid identifier, and the first
record with that identifier has the same captured stack. -/
def SharesFirstStack (minAgeNs : U64) (entries : List Found) : Prop :=
  ∀ entry ∈ entries, entry.Old minAgeNs → 0 < entry.info.manualStackCnt →
    0 ≤ entry.info.stackId.toInt ∧
      (firstWithStackId minAgeNs entries entry.info.stackId).map
        (fun first => first.info.capturedStack) = some entry.info.capturedStack

instance (minAgeNs : U64) (entries : List Found) : Decidable (SharesFirstStack minAgeNs entries) :=
  inferInstanceAs (Decidable (∀ entry ∈ entries, _ → _ → _ ∧ _))

/-! ## The stack of a row -/

/-- A row is printed with the captured stack of the record that starts it. -/
theorem printedManualStack_ofInfo (info : AllocInfo) :
    (Allocation.ofInfo info).printedManualStack =
      if 0 < info.manualStackCnt then some info.capturedStack else none := by
  unfold Allocation.printedManualStack AllocInfo.capturedStack Allocation.ofInfo
  have frames : manualFrames (copyManualStack info.manualStack info.manualStackCnt
      (List.finRange maxManualStackDepth) fun _ => 0) info.manualStackCnt =
        manualFrames info.manualStack info.manualStackCnt := by
    refine List.map_congr_left fun i member => ?_
    have below : (i.val : Int) < info.manualStackCnt := by
      simpa using (List.mem_filter.mp member).2
    rw [copyManualStack_apply _ _ _ (List.pairwise_lt_finRange _)]
    exact if_pos ⟨List.mem_finRange i, below⟩
  dsimp only
  rw [frames]

/-- Merging records does not change what is printed for a row. -/
theorem printedManualStack_foldl_merge (infos : List AllocInfo) (row : Allocation) :
    (infos.foldl Allocation.merge row).printedManualStack = row.printedManualStack := by
  induction infos generalizing row with
  | nil => rfl
  | cons info infos inductionHypothesis =>
      rw [List.foldl_cons, inductionHypothesis]
      rfl

variable {minAgeNs : U64} {entries : List Found}

/-- The records of a row are the group of its label. -/
theorem map_info_members (row : Allocation) :
    (members minAgeNs entries row).map Found.info =
      byStack.group ((counted minAgeNs entries).map Found.info) row.stackId := by
  unfold members Grouping.group
  rw [List.filter_map]
  rfl

/-- The first record that a row of a valid identifier counts. -/
theorem head_members
    {row : Allocation}
    {stackId : BitVec 32}
    (valid : 0 ≤ stackId.toInt)
    (label : row.stackId = stackId.signExtend 64) :
    (members minAgeNs entries row).head? = firstWithStackId minAgeNs entries stackId := by
  unfold members counted firstWithStackId
  rw [List.filter_filter, List.head?_filter]
  congr 1
  funext entry
  rw [← Bool.decide_and, label]
  apply decide_eq_decide.mpr
  constructor
  · exact fun ⟨same, aged, _⟩ => ⟨aged, signExtend_inj.mp same⟩
  · rintro ⟨aged, rfl⟩
    exact ⟨rfl, aged, not_lt.mpr valid⟩

/-- What is printed for a row of a tally comes from the first record in it. -/
theorem printedManualStack_of_mem_tally
    {row : Allocation}
    (member : row ∈ byStack.tally ((counted minAgeNs entries).map Found.info)) :
    ∃ first, (members minAgeNs entries row).head? = some first ∧
      row.printedManualStack =
        if 0 < first.info.manualStackCnt then some first.info.capturedStack else none := by
  obtain ⟨info, infos, group, whole⟩ := byStack.exists_first_of_mem_tally member
  have label : byStack.rowLabel row = row.stackId := rfl
  rw [label, ← map_info_members] at group
  obtain ⟨first, rest, split, rfl, rfl⟩ := List.map_eq_cons_iff.mp group
  refine ⟨first, by rw [split, List.head?_cons], ?_⟩
  rw [whole, ← printedManualStack_ofInfo]
  exact printedManualStack_foldl_merge _ _

/-- If the rows have different identifiers, no other row counts a record. -/
theorem rowsWith_eq_singleton
    {printout : Printout}
    (distinct : (printout.rows.map Allocation.stackId).Nodup)
    {entry : Found}
    {row : Allocation}
    (inRows : row ∈ printout.rows)
    (counts : entry ∈ members minAgeNs entries row) :
    rowsWith minAgeNs entries printout entry = [row] := by
  have label : ∀ {other}, entry ∈ members minAgeNs entries other →
      entry.info.stackId.signExtend 64 = other.stackId :=
    fun inside => of_decide_eq_true (List.mem_filter.mp inside).2
  have onlyRow : rowsWith minAgeNs entries printout entry =
      printout.rows.filter (· = row) := by
    apply List.filter_congr
    intro other member
    apply decide_eq_decide.mpr
    constructor
    · intro inside
      exact List.inj_on_of_nodup_map distinct member inRows
        ((label inside).symm.trans (label counts))
    · rintro rfl
      exact counts
  rw [onlyRow, List.filter_eq, List.count_eq_one_of_mem distinct.of_map inRows]
  rfl

/-- Rows that tally the counted records show every old record under its own
captured stack if and only if it has a valid identifier and the captured stack
of the first record with that identifier. -/
theorem underOwnStacks_iff
    {printout : Printout}
    (rows : printout.rows.Perm (byStack.tally ((counted minAgeNs entries).map Found.info))) :
    UnderOwnStacks minAgeNs entries printout ↔ SharesFirstStack minAgeNs entries := by
  have distinct : (printout.rows.map Allocation.stackId).Nodup :=
    (rows.map Allocation.stackId).nodup_iff.mpr (byStack.tally_nodup _)
  unfold UnderOwnStacks SharesFirstStack
  refine forall₂_congr fun entry member => forall₂_congr fun old captured => ?_
  constructor
  · rintro ⟨row, counting, printed⟩
    have inside : row ∈ rowsWith minAgeNs entries printout entry := by
      rw [counting]
      exact List.mem_singleton_self row
    obtain ⟨inRows, counts⟩ := List.mem_filter.mp inside
    obtain ⟨inCounted, label⟩ := List.mem_filter.mp (of_decide_eq_true counts)
    obtain ⟨_, hasStack⟩ := of_decide_eq_true (List.mem_filter.mp inCounted).2
    have valid : 0 ≤ entry.info.stackId.toInt := not_lt.mp hasStack
    refine ⟨valid, ?_⟩
    obtain ⟨first, head, shown⟩ := printedManualStack_of_mem_tally (rows.mem_iff.mp inRows)
    rw [head_members valid (of_decide_eq_true label).symm] at head
    rw [shown] at printed
    split at printed
    · rw [head, Option.map_some, printed]
    · cases printed
  · rintro ⟨valid, same⟩
    have inCounted : entry ∈ counted minAgeNs entries :=
      List.mem_filter.mpr
        ⟨member, decide_eq_true ⟨Found.aged_of_old old, not_lt.mpr valid⟩⟩
    obtain ⟨row, inTally, label⟩ :=
      byStack.exists_row_of_mem (List.mem_map_of_mem inCounted)
    have stack : row.stackId = entry.info.stackId.signExtend 64 := label
    have counts : entry ∈ members minAgeNs entries row :=
      List.mem_filter.mpr ⟨inCounted, decide_eq_true stack.symm⟩
    refine ⟨row, rowsWith_eq_singleton distinct (rows.mem_iff.mpr inTally) counts, ?_⟩
    obtain ⟨first, head, shown⟩ := printedManualStack_of_mem_tally inTally
    rw [head_members valid stack] at head
    rw [head, Option.map_some] at same
    have own : first.info.capturedStack = entry.info.capturedStack := Option.some.inj same
    have count : first.info.manualStackCnt = entry.info.manualStackCnt := congrArg Prod.fst own
    rw [shown, if_pos (count ▸ captured), own]

/-- On every content of `allocs` that does not change during the walk, every row
is the merge of the records that it counts, and every old record with a captured
stack is counted in exactly one row and printed under its own captured stack if
and only if its identifier is valid and it has the captured stack of the first
record with that identifier. -/
theorem own_stacks_iff
    (contents : Contents)
    (minAgeNs : U64)
    (qsort : Qsort)
    (allocs : Nat → Allocation)
    (readings : List U64)
    (enough : contents.entries.length < readings.length) :
    ∃ printout,
      printOutstandingAllocs minAgeNs qsort allocs
        ((stillRounds contents readings).map Round.pass) = some (.ok printout) ∧
      (∀ row ∈ printout.rows,
        byStack.summary ((members minAgeNs (visited contents.entries readings) row).map
          Found.info) = some row) ∧
      (UnderOwnStacks minAgeNs (visited contents.entries readings) printout ↔
        SharesFirstStack minAgeNs (visited contents.entries readings)) := by
  obtain ⟨⟨printout, printed⟩, lookups⟩ :=
    printout_of_still contents minAgeNs qsort allocs readings enough
  have rows := (tallies_of_printout printed).1
  rw [lookups] at rows
  refine ⟨printout, printed, ?_, underOwnStacks_iff rows⟩
  intro row member
  rw [map_info_members]
  exact (byStack.mem_tally_iff _ row).mp (rows.mem_iff.mp member)

/-- What a thread observes that calls from the given place.  Only the return
address is readable, and `bpf_get_stackid` returns the given identifier. -/
def callFrom (stackId : BitVec 32) (site : U64) : Context :=
  { Context.quiet 1 0 with
    stackId := stackId
    readUser := fun address => if address = 0 then some site else none }

/-- Two blocks from different places, with the given identifiers. -/
def twoSites (firstId secondId : BitVec 32) : List Event :=
  [ ⟨callFrom firstId 1000, .enter (.malloc 16)⟩,
    ⟨.quiet 1 4096, .exit .malloc⟩,
    ⟨callFrom secondId 2000, .enter (.malloc 32)⟩,
    ⟨.quiet 1 8192, .exit .malloc⟩ ]

/-- The record that such a call leaves. -/
def siteRecord (size : U64) (stackId : BitVec 32) (site : U64) : AllocInfo :=
  allocInfoOf (captureSizeInfo size stackId 0 (callFrom stackId site).readUser) 0

/-- The two records. -/
def siteRecords (firstId secondId : BitVec 32) : List (U64 × AllocInfo) :=
  [(4096, siteRecord 16 firstId 1000), (8192, siteRecord 32 secondId 2000)]

/-- The map `allocs` after two calls whose stacks have different identifiers. -/
def distinctIds : Contents :=
  .ofRun (.main 4096) (twoSites 1 2) (siteRecords 1 2) (by decide)
    (BoundedMap.mem_entries_iff_lookup (by decide) (by decide))

theorem own_stacks_iff_distinctIds :
    ∃ printout,
      printOutstandingAllocs 500 Qsort.mergeSort
        (fun _ => Allocation.ofInfo (siteRecord 16 1 1000))
        ((stillRounds distinctIds [1000, 1001, 1002]).map Round.pass) = some (.ok printout) ∧
      UnderOwnStacks 500 (visited (siteRecords 1 2) [1000, 1001, 1002]) printout := by
  obtain ⟨printout, printed, _, condition⟩ := own_stacks_iff distinctIds 500 Qsort.mergeSort
    (fun _ => Allocation.ofInfo (siteRecord 16 1 1000)) [1000, 1001, 1002] (by decide)
  exact ⟨printout, printed, condition.mpr (by decide)⟩

/-- The map `allocs` after two calls whose stacks `bpf_get_stackid` does not
tell apart. -/
def sharedId : Contents :=
  .ofRun (.main 4096) (twoSites 1 1) (siteRecords 1 1) (by decide)
    (BoundedMap.mem_entries_iff_lookup (by decide) (by decide))

/-- The second block is printed under the stack of the first. -/
theorem sharedId_not_under_own_stacks :
    ¬∀ (contents : Contents) (minAgeNs : U64) (qsort : Qsort) (allocs : Nat → Allocation)
        (readings : List U64) (printout : Printout),
      printOutstandingAllocs minAgeNs qsort allocs
        ((stillRounds contents readings).map Round.pass) = some (.ok printout) →
      UnderOwnStacks minAgeNs (visited contents.entries readings) printout := by
  intro general
  obtain ⟨⟨printout, printed⟩, lookups⟩ := printout_of_still sharedId 500 Qsort.mergeSort
    (fun _ => Allocation.ofInfo (siteRecord 16 1 1000)) [1000, 1001, 1002] (by decide)
  have rows := (tallies_of_printout printed).1
  rw [lookups] at rows
  have shared := (underOwnStacks_iff rows).mp (general _ _ _ _ _ _ printed)
  exact absurd shared (by decide)

end Memleak
end EbpfHub
