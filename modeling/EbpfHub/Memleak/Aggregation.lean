import EbpfHub.Memleak.Contents

/-!
# The report of a map that does not change

While the map stays as it is, the walk visits every key once and the report is
the exact aggregation of the aged records by stack.
-/

namespace EbpfHub
namespace Memleak

open Foundations

/-- The rounds of a walk through contents that do not change, with the given
readings of the clock. -/
def stillRounds (contents : Contents) (readings : List U64) : List Round :=
  readings.map fun ktime => ⟨contents, contents, ktime, none, none⟩

/-- The entries with the readings at their visits. -/
def visited (entries : List (U64 × AllocInfo)) (readings : List U64) : List Found :=
  (entries.zip readings).map fun visit => ⟨visit.1.1, visit.1.2, visit.2⟩

/-- A walk that asks often enough visits the entries in their order. -/
theorem found_of_still
    (contents : Contents)
    (minAgeNs : U64)
    (report : Report)
    (cursor : U64)
    (entries : List (U64 × AllocInfo))
    (inside : ∀ entry ∈ entries, entry ∈ contents.entries)
    (readings : List U64)
    (visits : visits cursor (List.replicate readings.length contents.keys) =
      entries.map Prod.fst)
    (finishes : Finishes cursor (List.replicate readings.length contents.keys)) :
    (∃ final, walk minAgeNs cursor report ((stillRounds contents readings).map Round.pass) =
      some (.ok final)) ∧
      found cursor ((stillRounds contents readings).map Round.pass) =
        visited entries readings := by
  induction readings generalizing report cursor entries with
  | nil => exact absurd finishes not_false
  | cons ktime readings inductionHypothesis =>
      simp only [List.length_cons, List.replicate_succ, Foundations.visits, Finishes]
        at visits finishes
      simp only [stillRounds, List.map_cons, walk, found]
      simp only [Round.pass]
      cases next : nextKey contents.keys cursor with
      | none =>
          rw [next] at visits
          cases entries with
          | nil => exact ⟨⟨report, rfl⟩, rfl⟩
          | cons entry entries => cases visits
      | some key =>
          rw [next] at visits finishes
          cases entries with
          | nil => cases visits
          | cons entry entries =>
              obtain ⟨rfl, rest⟩ := List.cons.inj visits
              obtain ⟨here, later⟩ := List.forall_mem_cons.mp inside
              have lookup : contents.lookup entry.1 = some entry.2 :=
                contents.lookup_of_mem here
              obtain ⟨complete, lookups⟩ := inductionHypothesis
                (report.visit minAgeNs ktime entry.2) entry.1 entries later rest finishes
              dsimp only
              rw [lookup]
              dsimp only
              refine ⟨complete, ?_⟩
              rw [visited, List.zip_cons_cons, List.map_cons]
              exact congrArg (_ :: ·) lookups

/-- With more readings than entries the walk comes to its end and looks up every
entry once. -/
theorem printout_of_still
    (contents : Contents)
    (minAgeNs : U64)
    (qsort : Qsort)
    (allocs : Nat → Allocation)
    (readings : List U64)
    (enough : contents.entries.length < readings.length) :
    (∃ printout, printOutstandingAllocs minAgeNs qsort allocs
        ((stillRounds contents readings).map Round.pass) = some (.ok printout)) ∧
      found 0 ((stillRounds contents readings).map Round.pass) =
        visited contents.entries readings := by
  obtain ⟨visits, finishes⟩ := visits_of_absent contents.zero_notMem contents.distinct
    readings.length (by
      rw [Contents.keys, List.length_map]
      exact enough)
  obtain ⟨⟨final, complete⟩, lookups⟩ := found_of_still contents minAgeNs
    (Report.start allocs) 0 contents.entries (fun _ member => member) readings visits finishes
  refine ⟨?_, lookups⟩
  unfold printOutstandingAllocs
  rw [complete]
  exact ⟨_, rfl⟩

/-- A report of a map that does not change. -/
structure StillReport where
  contents : Contents
  minAgeNs : U64
  qsort : Qsort
  allocs : Nat → Allocation
  readings : List U64
  enough : contents.entries.length < readings.length
  late : ∀ ktime ∈ readings, minAgeNs.toNat ≤ ktime.toNat
  afterwards : ∀ ktime ∈ readings, ∀ entry ∈ contents.entries,
    entry.2.timestampNs.toNat ≤ ktime.toNat

namespace StillReport

/-- The answers of the map. -/
def passes (still : StillReport) : List Pass :=
  (stillRounds still.contents still.readings).map Round.pass

/-- The report that is printed. -/
def result (still : StillReport) : Option (Except (Nat × Report) Printout) :=
  printOutstandingAllocs still.minAgeNs still.qsort still.allocs still.passes

/-- The entries with the readings at their visits. -/
def entries (still : StillReport) : List Found :=
  visited still.contents.entries still.readings

/-- The entries whose age at their visit is at least the minimum. -/
def aged (still : StillReport) : List Found :=
  still.entries.filter fun entry =>
    still.minAgeNs.toNat ≤ entry.ktime.toNat - entry.info.timestampNs.toNat

/-- The walk comes to its end and looks up every entry once. -/
theorem found_eq (still : StillReport) :
    (∃ printout, still.result = some (.ok printout)) ∧
      found 0 still.passes = still.entries :=
  printout_of_still still.contents still.minAgeNs still.qsort still.allocs still.readings
    still.enough

/-- An entry comes with its record and a reading. -/
theorem mem_entries
    (still : StillReport)
    {entry : Found}
    (member : entry ∈ still.entries) :
    (entry.key, entry.info) ∈ still.contents.entries ∧ entry.ktime ∈ still.readings := by
  obtain ⟨⟨⟨key, info⟩, ktime⟩, paired, rfl⟩ := List.mem_map.mp member
  exact List.of_mem_zip paired

/-- On entries visited after their timestamps the unsigned test by age is the
comparison of the age. -/
theorem aged_iff
    (still : StillReport)
    {entry : Found}
    (member : entry ∈ still.entries) :
    entry.Aged still.minAgeNs ↔
      still.minAgeNs.toNat ≤ entry.ktime.toNat - entry.info.timestampNs.toNat := by
  obtain ⟨inside, reading⟩ := still.mem_entries member
  have late := still.late entry.ktime reading
  have afterwards := still.afterwards entry.ktime reading _ inside
  dsimp only at afterwards
  unfold Found.Aged
  rw [BitVec.not_lt, BitVec.le_def, BitVec.toNat_sub_of_le (BitVec.le_def.mpr late)]
  omega

/-- The entries that pass the unsigned test by age are the aged ones. -/
theorem filter_aged
    (still : StillReport)
    (keeps : Found → Prop)
    [DecidablePred keeps] :
    still.entries.filter (fun entry => entry.Aged still.minAgeNs ∧ keeps entry) =
      still.aged.filter fun entry => keeps entry := by
  unfold aged
  rw [List.filter_filter]
  apply List.filter_congr
  intro entry member
  rw [Bool.decide_and, Bool.and_comm]
  exact congrArg (_ && ·) (decide_eq_decide.mpr (still.aged_iff member))

theorem counted_entries (still : StillReport) :
    counted still.minAgeNs still.entries = still.aged.filter fun entry => entry.HasStack :=
  still.filter_aged Found.HasStack

theorem stackless_entries (still : StillReport) :
    stackless still.minAgeNs still.entries = still.aged.filter fun entry => ¬entry.HasStack :=
  still.filter_aged fun entry => ¬entry.HasStack

/-- Fewer entries are aged than a counter can count. -/
theorem length_aged_lt (still : StillReport) : still.aged.length < 2 ^ 64 := by
  have visits : still.entries.length ≤ still.contents.entries.length := by
    rw [entries, visited, List.length_map, List.length_zip]
    exact Nat.min_le_left _ _
  have fewer : still.aged.length ≤ still.entries.length := List.length_filter_le _ _
  have bounded := still.contents.bounded
  unfold allocsMaxEntries at bounded
  omega

end StillReport

/-! ## Exact aggregation -/

/-- The records with the given stack. -/
def sameStack (infos : List AllocInfo) (stackId : BitVec 32) : List AllocInfo :=
  infos.filter fun info => info.stackId = stackId

/-- The report is the exact aggregation of the aged records. -/
structure Aggregates (printout : Printout) (aged : List AllocInfo) : Prop where
  distinct : (printout.rows.map Allocation.stackId).Nodup
  grounded : ∀ row ∈ printout.rows, ∃ info ∈ aged, 0 ≤ info.stackId.toInt ∧
    row.stackId = info.stackId.signExtend 64
  summed : ∀ info ∈ aged, 0 ≤ info.stackId.toInt → ∃ row ∈ printout.rows,
    row.stackId = info.stackId.signExtend 64 ∧
      row.size = ((sameStack aged info.stackId).map AllocInfo.size).sum ∧
      row.count.toNat = (sameStack aged info.stackId).length
  descending : printout.rows.Pairwise fun x y => y.size ≤ x.size
  missing : printout.nrMissingStacks =
    aged.countP fun info => info.stackId.toInt < 0 ∧ info.stackId.toInt ≠ -14
  collisions : printout.nrCollisionStacks ≤ printout.nrMissingStacks
  total : (printout.rows.map fun row => row.count.toNat).sum +
    aged.countP (fun info => info.stackId.toInt < 0) = aged.length

/-- The aged records that have a stack. -/
def withStack (aged : List AllocInfo) : List AllocInfo :=
  aged.filter fun info => ¬info.stackId.toInt < 0

/-- The group of a stack among the records that have one. -/
theorem group_withStack
    {aged : List AllocInfo}
    {stackId : BitVec 32}
    (valid : 0 ≤ stackId.toInt) :
    byStack.group (withStack aged) (stackId.signExtend 64) = sameStack aged stackId := by
  unfold Grouping.group withStack sameStack
  rw [List.filter_filter]
  apply List.filter_congr
  intro info _
  have label : byStack.label info = info.stackId.signExtend 64 := rfl
  rw [label, ← Bool.decide_and]
  apply decide_eq_decide.mpr
  constructor
  · exact fun both => signExtend_inj.mp both.1
  · rintro rfl
    exact ⟨rfl, not_lt.mpr valid⟩

/-- The size of a row is the sum of the sizes in its group. -/
theorem size_of_mem_tally
    {infos : List AllocInfo}
    {row : Allocation}
    (member : row ∈ byStack.tally infos) :
    row.size = ((byStack.group infos row.stackId).map AllocInfo.size).sum :=
  byStack.weight_of_mem_tally (fun _ => rfl) (fun _ _ => rfl) member

/-- The count of a row is the number of records in its group. -/
theorem count_of_mem_tally
    {infos : List AllocInfo}
    {row : Allocation}
    (few : infos.length < 2 ^ 64)
    (member : row ∈ byStack.tally infos) :
    row.count.toNat = (byStack.group infos row.stackId).length := by
  have counted : row.count =
      ((byStack.group infos row.stackId).map fun _ => (1 : U64)).sum :=
    byStack.weight_of_mem_tally (fun _ => rfl) (fun _ _ => rfl) member
  have fewer : (byStack.group infos row.stackId).length ≤ infos.length :=
    List.length_filter_le _ _
  rw [counted, List.map_const', List.sum_replicate, nsmul_one, BitVec.natCast_eq_ofNat,
    BitVec.toNat_ofNat]
  exact Nat.mod_eq_of_lt (by omega)

/-- Rows that tally the records with a stack, in decreasing order, and counters
of the others make a report that aggregates the aged records. -/
theorem aggregates_of_tally
    {printout : Printout}
    {aged : List AllocInfo}
    (few : aged.length < 2 ^ 64)
    (rows : printout.rows.Perm (byStack.tally (withStack aged)))
    (descending : printout.rows.Pairwise fun x y => y.size ≤ x.size)
    (missing : printout.nrMissingStacks =
      (aged.filter fun info => info.stackId.toInt < 0).countP fun info =>
        stackIdErr info.stackId)
    (collisions : printout.nrCollisionStacks =
      (aged.filter fun info => info.stackId.toInt < 0).countP fun info =>
        stackIdCollision info.stackId) :
    Aggregates printout aged := by
  have fewer : (withStack aged).length < 2 ^ 64 :=
    Nat.lt_of_le_of_lt (List.length_filter_le _ _) few
  have labels : (printout.rows.map Allocation.stackId).Nodup :=
    (rows.map Allocation.stackId).nodup_iff.mpr (byStack.tally_nodup (withStack aged))
  refine ⟨labels, ?_, ?_, descending, ?_, ?_, ?_⟩
  · intro row member
    obtain ⟨info, inside, label⟩ := byStack.exists_entry_of_mem_tally (rows.mem_iff.mp member)
    obtain ⟨inAged, valid⟩ := List.mem_filter.mp inside
    exact ⟨info, inAged, not_lt.mp (of_decide_eq_true valid), label.symm⟩
  · intro info member valid
    have inside : info ∈ withStack aged := by
      simpa [withStack] using ⟨member, valid⟩
    obtain ⟨row, inTally, label⟩ := byStack.exists_row_of_mem inside
    have stack : row.stackId = info.stackId.signExtend 64 := label
    have group : byStack.group (withStack aged) row.stackId = sameStack aged info.stackId := by
      rw [stack, group_withStack valid]
    refine ⟨row, rows.mem_iff.mpr inTally, stack, ?_, ?_⟩
    · rw [size_of_mem_tally inTally, group]
    · rw [count_of_mem_tally fewer inTally, group]
  · rw [missing, List.countP_filter]
    apply List.countP_congr
    intro info _
    simp only [Bool.and_eq_true, decide_eq_true_eq]
    constructor
    · exact fun both => both.1
    · exact fun error => ⟨error, error.1⟩
  · rw [missing, collisions]
    apply List.countP_mono_left
    intro info _ collision
    have isExist : info.stackId.toInt = -17 := of_decide_eq_true collision
    exact decide_eq_true ⟨by omega, by unfold stackIdEfault; omega⟩
  · have counts : (printout.rows.map fun row => row.count.toNat).sum = (withStack aged).length := by
      rw [(rows.map _).sum_eq]
      have perRow : (byStack.tally (withStack aged)).map (fun row => row.count.toNat) =
          ((byStack.tally (withStack aged)).map byStack.rowLabel).map fun label =>
            (byStack.group (withStack aged) label).length := by
        rw [List.map_map]
        exact List.map_congr_left fun row member => count_of_mem_tally fewer member
      rw [perRow]
      apply byStack.sum_length_group (byStack.tally_nodup (withStack aged))
      intro info member
      obtain ⟨row, inTally, label⟩ := byStack.exists_row_of_mem member
      exact List.mem_map.mpr ⟨row, inTally, label⟩
    rw [counts, withStack, ← List.countP_eq_length_filter, Nat.add_comm,
      List.length_eq_countP_add_countP fun info => decide (info.stackId.toInt < 0)]
    simp only [decide_eq_true_eq]

/-- The report of a map that does not change aggregates its aged entries. -/
theorem StillReport.aggregates (still : StillReport) :
    ∃ printout, still.result = some (.ok printout) ∧
      Aggregates printout (still.aged.map Found.info) := by
  obtain ⟨⟨printout, printed⟩, lookups⟩ := still.found_eq
  obtain ⟨rows, descending, missing, collisions⟩ := tallies_of_printout printed
  rw [lookups, still.counted_entries] at rows
  rw [lookups, still.stackless_entries] at missing collisions
  refine ⟨printout, printed, aggregates_of_tally ?_ ?_ descending ?_ ?_⟩
  · rw [List.length_map]
    exact still.length_aged_lt
  · rw [withStack, List.filter_map]
    exact rows
  · rw [missing, List.filter_map, List.countP_map]
    congr 1
    apply List.filter_congr
    intro entry _
    exact decide_eq_decide.mpr not_not
  · rw [collisions, List.filter_map, List.countP_map]
    congr 1
    apply List.filter_congr
    intro entry _
    exact decide_eq_decide.mpr not_not

/-- On every reachable content of `allocs` that does not change during the
walk, with its entries in any order and the clock beyond the minimal age and the
timestamps, the walk visits every key once and prints the exact aggregation of
the aged entries. -/
theorem report_exact
    (rodata : Rodata)
    (events : List Event)
    (entries : List (U64 × AllocInfo))
    (distinct : (entries.map Prod.fst).Nodup)
    (complete : ∀ key info, (key, info) ∈ entries ↔
      (runEvents rodata events).allocs.lookup key = some info)
    (minAgeNs : U64)
    (qsort : Qsort)
    (allocs : Nat → Allocation)
    (readings : List U64)
    (enough : entries.length < readings.length)
    (late : ∀ ktime ∈ readings, minAgeNs.toNat ≤ ktime.toNat)
    (afterwards : ∀ ktime ∈ readings, ∀ entry ∈ entries,
      entry.2.timestampNs.toNat ≤ ktime.toNat) :
    0 ∉ (runEvents rodata events).allocs.keys ∧
      (found 0 ((stillRounds (.ofRun rodata events entries distinct complete) readings).map
        Round.pass)).map Found.key = entries.map Prod.fst ∧
      ∃ printout,
        printOutstandingAllocs minAgeNs qsort allocs
          ((stillRounds (.ofRun rodata events entries distinct complete) readings).map
            Round.pass) = some (.ok printout) ∧
        Aggregates printout
          (((visited entries readings).filter fun entry =>
            minAgeNs.toNat ≤ entry.ktime.toNat - entry.info.timestampNs.toNat).map Found.info) := by
  let still : StillReport :=
    { contents := .ofRun rodata events entries distinct complete
      minAgeNs := minAgeNs
      qsort := qsort
      allocs := allocs
      readings := readings
      enough := enough
      late := late
      afterwards := afterwards }
  refine ⟨?_, ?_, still.aggregates⟩
  · intro member
    exact (recordable_of_mem_keys rodata events 0 member).1 rfl
  · have lookups : found 0 ((stillRounds (.ofRun rodata events entries distinct complete)
        readings).map Round.pass) = visited entries readings :=
      still.found_eq.2
    rw [lookups, visited, List.map_map]
    have keys : Found.key ∘ (fun visit : (U64 × AllocInfo) × U64 =>
        (⟨visit.1.1, visit.1.2, visit.2⟩ : Found)) = Prod.fst ∘ Prod.fst := rfl
    rw [keys, ← List.map_map, List.map_fst_zip (Nat.le_of_lt enough)]

/-- A hit of the first thread, with its stack. -/
def onStack (stackId : BitVec 32) (rc : U64) : Context :=
  { Context.quiet 1 rc with stackId := stackId }

/-- A call of `malloc`. -/
def mallocAt (stackId : BitVec 32) (size address : U64) : List Event :=
  [⟨onStack stackId 0, .enter (.malloc size)⟩, ⟨onStack stackId address, .exit .malloc⟩]

/-- The record that it leaves. -/
def recordAt (stackId : BitVec 32) (size : U64) : AllocInfo :=
  allocInfoOf (captureSizeInfo size stackId 0 fun _ => none) 0

/-- Two blocks from one stack, one from another, and one whose stack was not
stored. -/
def fourMallocs : List Event :=
  mallocAt 7 16 4096 ++ mallocAt 7 24 8192 ++ mallocAt 9 32 12288 ++ mallocAt (-14) 8 16384

/-- Their records. -/
def fourRecords : List (U64 × AllocInfo) :=
  [(4096, recordAt 7 16), (8192, recordAt 7 24), (12288, recordAt 9 32),
    (16384, recordAt (-14) 8)]

theorem mem_fourRecords_iff (key : U64) (info : AllocInfo) :
    (key, info) ∈ fourRecords ↔
      (runEvents (.main 4096) fourMallocs).allocs.lookup key = some info :=
  BoundedMap.mem_entries_iff_lookup (by decide) (by decide) key info

theorem report_exact_fourMallocs :
    ∃ printout,
      printOutstandingAllocs 500 Qsort.mergeSort (fun _ => Allocation.ofInfo (recordAt 3 5))
        ((stillRounds (.ofRun (.main 4096) fourMallocs fourRecords (by decide)
          mem_fourRecords_iff) [1000, 1001, 1002, 1003, 1004]).map Round.pass) =
            some (.ok printout) ∧
      Aggregates printout [recordAt 7 16, recordAt 7 24, recordAt 9 32, recordAt (-14) 8] :=
  (report_exact (.main 4096) fourMallocs fourRecords (by decide) mem_fourRecords_iff 500
    Qsort.mergeSort (fun _ => Allocation.ofInfo (recordAt 3 5)) [1000, 1001, 1002, 1003, 1004]
    (by decide) (by simp) (by simp [fourRecords, recordAt, allocInfoOf])).2.2

end Memleak
end EbpfHub
