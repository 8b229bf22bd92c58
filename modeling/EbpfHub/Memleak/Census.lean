import EbpfHub.Memleak.Aggregation
import EbpfHub.Memleak.Ownership
import Mathlib.Algebra.BigOperators.Group.Finset.Basic

/-!
# The report counts the heap

From the calls of the traced program to the report: every row stands for the
blocks that the program owns and got from calls with one stack, and says how
many they are and how many bytes the program asked for.  The blocks that it has
failed to resize are missing.
-/

namespace EbpfHub
namespace Memleak

open Foundations

/-! ## Where blocks come from -/

/-- The stack of the call that each thread entered last, and for each block that
of the call that returned it. -/
structure Sites where
  entered : U32 → BitVec 32
  site : U64 → BitVec 32

namespace Sites

/-- The stacks before the first call. -/
def initial : Sites where
  entered := fun _ => 0
  site := fun _ => 0

/-- The stacks after an event. -/
def step (sites : Sites) (event : Event) : Sites :=
  match event.probe with
  | .enter _ => { sites with
      entered := Function.update sites.entered event.tid event.ctx.stackId }
  | .exit _ =>
      if Recordable event.ctx.rc then
        { sites with
          site := Function.update sites.site event.ctx.rc (sites.entered event.tid) }
      else sites
  | .release _ => sites

theorem step_enter (sites : Sites) (ctx : Context) (call : Call) :
    sites.step ⟨ctx, .enter call⟩ =
      { sites with entered := Function.update sites.entered ctx.tid ctx.stackId } := rfl

theorem step_exit_site
    (sites : Sites)
    (ctx : Context)
    (fn : AllocFn) :
    (sites.step ⟨ctx, .exit fn⟩).site =
      if Recordable ctx.rc then
        Function.update sites.site ctx.rc (sites.entered ctx.tid)
      else sites.site := by
  unfold step
  dsimp only
  split
  · rfl
  · rfl

@[simp] theorem step_exit_entered (sites : Sites) (ctx : Context) (fn : AllocFn) :
    (sites.step ⟨ctx, .exit fn⟩).entered = sites.entered := by
  unfold step
  dsimp only
  split
  · rfl
  · rfl

/-- The stacks after a run of the program. -/
def ofRun (events : List Event) : Sites := run step initial events

end Sites

/-- The maps track the heap, and the stacks that they hold are those of the
calls that the blocks come from. -/
structure Heap.Locates
    (rodata : Rodata)
    (heap : Heap)
    (state : Maps × Sites) : Prop where
  tracks : heap.Tracks rodata state.1
  slots : ∀ tid sinfo, (state.1.tables.threads tid).slot = some sinfo →
    sinfo.stackId = state.2.entered tid
  records : ∀ address info, state.1.allocs.lookup address = some info →
    Recordable address ∧ info.stackId = state.2.site address
  fits : ∀ address requested, heap.owned address = some requested → requested < 2 ^ 64

namespace Heap
namespace Locates

variable {rodata : Rodata} {heap : Heap} {maps : Maps} {sites : Sites}

theorem empty : Heap.empty.Locates rodata (Maps.empty, Sites.initial) where
  tracks := Tracks.empty
  slots := by
    intro tid sinfo found
    rw [Maps.tables_empty] at found
    cases found
  records := by
    intro address info found
    rw [Maps.empty, BoundedMap.lookup_empty] at found
    cases found
  fits := by
    intro address requested owned
    cases owned

/-- The slots hold the stacks of the calls in progress after an event. -/
theorem slots_step
    (locates : heap.Locates rodata (maps, sites))
    {event : Event}
    {next : Heap}
    (allowed : Step heap event next)
    {tid : U32}
    {sinfo : SizeInfo}
    (slot : ((Memleak.step rodata maps event).tables.threads tid).slot = some sinfo) :
    sinfo.stackId = (sites.step event).entered tid := by
  rcases slot_step slot with ⟨rfl, captured⟩ | ⟨before, kept⟩
  · cases allowed with
    | enter ctx call idle plain =>
        have stack : sinfo.stackId = ctx.stackId := captureOf_stackId captured
        rw [stack, Sites.step_enter]
        simp [Event.tid]
    | exit ctx call inside fresh overflow => cases captured
    | release ctx call => cases captured
  · have stack := locates.slots tid sinfo before
    rw [stack]
    cases allowed with
    | enter ctx call idle plain =>
        -- an idle thread has no slot, so the entry is one of another thread
        have different : tid ≠ ctx.tid := by
          rintro rfl
          have empty := locates.tracks.slot_of_idle idle
          rw [empty] at before
          cases before
        rw [Sites.step_enter]
        exact (Function.update_of_ne different _ _).symm
    | exit ctx call inside fresh overflow => rw [Sites.step_exit_entered]
    | release ctx call => rfl

/-- The records hold the stacks of the calls that the blocks come from after an
event. -/
theorem records_step
    (locates : heap.Locates rodata (maps, sites))
    {event : Event}
    {next : Heap}
    (allowed : Step heap event next)
    {address : U64}
    {info : AllocInfo}
    (found : (Memleak.step rodata maps event).allocs.lookup address = some info) :
    Recordable address ∧ info.stackId = (sites.step event).site address := by
  rcases allocs_step found with inserted | before
  · obtain ⟨sinfo, exits, slot, recordable, rfl⟩ := of_insertion inserted
    refine ⟨recordable, ?_⟩
    cases allowed with
    | enter ctx call idle plain => cases exits
    | release ctx call => cases exits
    | exit ctx call inside fresh overflow =>
        have returned := locates.tracks.exitAddress inside
        obtain rfl := Option.some.inj (returned.symm.trans exits)
        have stack : sinfo.stackId = sites.entered ctx.tid := locates.slots ctx.tid sinfo slot
        rw [Sites.step_exit_site, if_pos recordable, Function.update_self]
        exact stack
  · obtain ⟨recordable, stack⟩ := locates.records address info before
    refine ⟨recordable, ?_⟩
    rw [stack]
    cases allowed with
    | enter ctx call idle plain => rfl
    | release ctx call => rfl
    | exit ctx call inside fresh overflow =>
        by_cases returned : Recordable ctx.rc
        · -- the block that is returned is new, so it has no record yet
          have different : address ≠ ctx.rc := by
            rintro rfl
            have owned := locates.tracks.records ctx.rc info before
            rw [fresh returned] at owned
            cases owned
          rw [Sites.step_exit_site, if_pos returned, Function.update_of_ne different]
        · rw [Sites.step_exit_site, if_neg returned]

/-- No block is larger than a size can say. -/
theorem fits_step
    (locates : heap.Locates rodata (maps, sites))
    {event : Event}
    {next : Heap}
    (allowed : Step heap event next)
    {address : U64}
    {requested : Nat}
    (owned : next.owned address = some requested) :
    requested < 2 ^ 64 := by
  cases allowed with
  | enter ctx call idle plain =>
      rw [enter_owned] at owned
      exact locates.fits address requested (of_forget_eq_some owned).2
  | release ctx call =>
      rw [release_owned] at owned
      exact locates.fits address requested (of_forget_eq_some owned).2
  | exit ctx call inside fresh overflow =>
      by_cases returned : Recordable ctx.rc ∧ address = ctx.rc
      · obtain ⟨recordable, rfl⟩ := returned
        rw [exit_owned, if_pos recordable, Function.update_self] at owned
        obtain rfl := Option.some.inj owned
        exact not_le.mp fun overflows => overflow overflows recordable
      · rw [exit_owned_of_ne heap ctx.tid call returned] at owned
        exact locates.fits address requested owned

/-- One event of the program and its allocator keeps the stacks right. -/
theorem step
    (rate : rodata.sampleRate = 1)
    {event : Event}
    {next : Heap}
    (allowed : Step heap event next)
    (locates : heap.Locates rodata (maps, sites)) :
    next.Locates rodata (Memleak.step rodata maps event, sites.step event) where
  tracks := Tracks.step rate allowed locates.tracks
  slots := fun _ _ slot => locates.slots_step allowed slot
  records := fun _ _ found => locates.records_step allowed found
  fits := fun _ _ owned => locates.fits_step allowed owned

/-- The stacks are right at every point of a run. -/
theorem run
    (rate : rodata.sampleRate = 1)
    {events : List Event}
    (trace : Trace Step Heap.empty events heap) :
    heap.Locates rodata (runEvents rodata events, Sites.ofRun events) := by
  have located := trace.simulation
    (fun (state : Maps × Sites) event =>
      (Memleak.step rodata state.1 event, state.2.step event))
    (Locates rodata) (fun allowed locates => step rate allowed locates) empty
  rwa [run_prod] at located

end Locates
end Heap

/-! ## What the rows say -/

/-- The rows are those of the stacks from which the program got the blocks that
are given, one for each, by decreasing size.  A row says how many these blocks are
and how many bytes they have, as a 64-bit number.  A block without a valid stack
is in no row. -/
structure CountsHeap
    (owned : U64 → Option Nat)
    (site : U64 → BitVec 32)
    (printout : Printout) : Prop where
  listed : ∀ address requested, owned address = some requested →
    0 ≤ (site address).toInt →
      ∃ row ∈ printout.rows, row.stackId = (site address).signExtend 64
  counted : ∀ row ∈ printout.rows, ∃ blocks : Finset U64, blocks.Nonempty ∧
    (∀ address, address ∈ blocks ↔
      owned address ≠ none ∧ (site address).signExtend 64 = row.stackId) ∧
    row.size = BitVec.ofNat 64 (∑ address ∈ blocks, (owned address).getD 0) ∧
    row.count.toNat = blocks.card
  distinct : (printout.rows.map Allocation.stackId).Nodup
  descending : printout.rows.Pairwise fun x y => y.size ≤ x.size

/-- A sum of 64-bit numbers is that of their values. -/
theorem ofNat_sum_toNat (sizes : List U64) :
    BitVec.ofNat 64 (sizes.map BitVec.toNat).sum = sizes.sum := by
  induction sizes with
  | nil => rfl
  | cons size sizes inductionHypothesis =>
      rw [List.map_cons, List.sum_cons, List.sum_cons, BitVec.ofNat_add, BitVec.ofNat_toNat,
        inductionHypothesis, BitVec.setWidth_eq]

/-- The entries with records of a stack. -/
def entriesOf
    (entries : List (U64 × AllocInfo))
    (stackId : BitVec 32) : List (U64 × AllocInfo) :=
  entries.filter fun entry => entry.2.stackId = stackId

theorem sameStack_map_snd (entries : List (U64 × AllocInfo)) (stackId : BitVec 32) :
    sameStack (entries.map Prod.snd) stackId = (entriesOf entries stackId).map Prod.snd :=
  List.filter_map

/-- The blocks of a list of entries without a repeated key. -/
theorem blocks_of_entries
    {heap : U64 → Option Nat}
    {entries : List (U64 × AllocInfo)}
    (distinct : (entries.map Prod.fst).Nodup)
    (owned : ∀ entry ∈ entries, heap entry.1 = some entry.2.size.toNat) :
    BitVec.ofNat 64 (∑ address ∈ (entries.map Prod.fst).toFinset,
        (heap address).getD 0) = (entries.map fun entry => entry.2.size).sum ∧
      (entries.map Prod.fst).toFinset.card = entries.length := by
  constructor
  · have sizes : (entries.map Prod.fst).map (fun address => (heap address).getD 0) =
        (entries.map fun entry => entry.2.size).map BitVec.toNat := by
      rw [List.map_map, List.map_map]
      apply List.map_congr_left
      intro entry member
      simp only [Function.comp_apply, owned entry member, Option.getD_some]
    rw [List.sum_toFinset _ distinct, sizes, ofNat_sum_toNat]
  · rw [List.toFinset_card_of_nodup distinct, List.length_map]

/-- An aggregation of records that are those of the owned blocks counts the
heap. -/
theorem countsHeap_of_aggregates
    {heap : U64 → Option Nat}
    {site : U64 → BitVec 32}
    {entries : List (U64 × AllocInfo)}
    {printout : Printout}
    (aggregates : Aggregates printout (entries.map Prod.snd))
    (distinct : (entries.map Prod.fst).Nodup)
    (owned : ∀ entry ∈ entries, heap entry.1 = some entry.2.size.toNat)
    (located : ∀ entry ∈ entries, entry.2.stackId = site entry.1)
    (complete : ∀ address requested, heap address = some requested →
      ∃ info, (address, info) ∈ entries) :
    CountsHeap heap site printout where
  listed := by
    intro address requested isOwned valid
    obtain ⟨info, member⟩ := complete address requested isOwned
    have stack : info.stackId = site address := located _ member
    rw [← stack] at valid ⊢
    obtain ⟨row, inRows, label, -⟩ := aggregates.summed info
      (List.mem_map.mpr ⟨_, member, rfl⟩) valid
    exact ⟨row, inRows, label⟩
  counted := by
    intro row member
    obtain ⟨info, inAged, valid, label⟩ := aggregates.grounded row member
    obtain ⟨other, inRows, otherLabel, size, count⟩ := aggregates.summed info inAged valid
    obtain rfl : other = row :=
      List.inj_on_of_nodup_map aggregates.distinct inRows member (otherLabel.trans label.symm)
    have inEntries : ∀ entry ∈ entriesOf entries info.stackId, entry ∈ entries :=
      fun _ inside => List.mem_of_mem_filter inside
    have keys : ((entriesOf entries info.stackId).map Prod.fst).Nodup :=
      distinct.sublist (List.filter_sublist.map Prod.fst)
    obtain ⟨sum, card⟩ := blocks_of_entries keys fun entry inside =>
      owned entry (inEntries entry inside)
    have members : ∀ address,
        address ∈ ((entriesOf entries info.stackId).map Prod.fst).toFinset ↔
          heap address ≠ none ∧ (site address).signExtend 64 = other.stackId := by
      intro address
      rw [List.mem_toFinset, List.mem_map, label, signExtend_inj]
      constructor
      · rintro ⟨entry, inside, rfl⟩
        have record := owned entry (inEntries entry inside)
        have stack := located entry (inEntries entry inside)
        refine ⟨by simp [record], ?_⟩
        rw [← stack]
        exact of_decide_eq_true (List.mem_filter.mp inside).2
      · rintro ⟨isOwned, stack⟩
        obtain ⟨requested, found⟩ := Option.ne_none_iff_exists'.mp isOwned
        obtain ⟨record, inside⟩ := complete address requested found
        have sameSite : record.stackId = site address := located _ inside
        exact ⟨(address, record), List.mem_filter.mpr ⟨inside, by simp [sameSite, stack]⟩, rfl⟩
    refine ⟨_, ?_, members, ?_, ?_⟩
    · obtain ⟨entry, inside, same⟩ := List.mem_map.mp inAged
      refine ⟨entry.1, List.mem_toFinset.mpr (List.mem_map.mpr ⟨entry, ?_, rfl⟩)⟩
      exact List.mem_filter.mpr ⟨inside, by simp [same]⟩
    · rw [size, sum, sameStack_map_snd, List.map_map]
      rfl
    · rw [count, card, sameStack_map_snd, List.length_map]
  distinct := aggregates.distinct
  descending := aggregates.descending

/-- Where every record is old enough, a report of a map that does not change
looks at every record. -/
theorem StillReport.aged_eq
    (still : StillReport)
    (old : ∀ ktime ∈ still.readings, ∀ entry ∈ still.contents.entries,
      entry.2.timestampNs.toNat + still.minAgeNs.toNat ≤ ktime.toNat) :
    still.aged.map Found.info = still.contents.entries.map Prod.snd := by
  have all : still.aged = still.entries := by
    apply List.filter_eq_self.mpr
    intro entry member
    obtain ⟨inside, reading⟩ := still.mem_entries member
    have age := old entry.ktime reading _ inside
    dsimp only at age
    exact decide_eq_true (by omega)
  have infos : Found.info ∘ (fun visit : (U64 × AllocInfo) × U64 =>
      (⟨visit.1.1, visit.1.2, visit.2⟩ : Found)) = Prod.snd ∘ Prod.fst := rfl
  rw [all, StillReport.entries, visited, List.map_map, infos, ← List.map_map,
    List.map_fst_zip (Nat.le_of_lt still.enough)]

/-- A report that is printed while the program is still after a run, late enough
for every record. -/
def StillReport.ofRun
    (rodata : Rodata)
    (events : List Event)
    (entries : List (U64 × AllocInfo))
    (distinct : (entries.map Prod.fst).Nodup)
    (complete : ∀ key info, (key, info) ∈ entries ↔
      (runEvents rodata events).allocs.lookup key = some info)
    (minAgeNs : U64)
    (qsort : Qsort)
    (allocs : Nat → Allocation)
    (readings : List U64)
    (enough : entries.length < readings.length)
    (late : ∀ ktime ∈ readings, minAgeNs.toNat ≤ ktime.toNat)
    (old : ∀ ktime ∈ readings, ∀ entry ∈ entries,
      entry.2.timestampNs.toNat + minAgeNs.toNat ≤ ktime.toNat) : StillReport where
  contents := .ofRun rodata events entries distinct complete
  minAgeNs := minAgeNs
  qsort := qsort
  allocs := allocs
  readings := readings
  enough := enough
  late := late
  afterwards := fun ktime reading entry inside =>
    Nat.le_of_add_right_le (old ktime reading entry inside)

/-- After a run of the program without nested calls and without a failed update,
a report of the records that were made counts the tracked heap. -/
theorem StillReport.countsHeap
    {pageSize : U64}
    {events : List Event}
    {heap : Heap}
    (trace : Trace Heap.Step Heap.empty events heap)
    (noFailure : (runEvents (.main pageSize) events).failedUpdates = 0)
    (still : StillReport)
    (complete : ∀ key info, (key, info) ∈ still.contents.entries ↔
      (runEvents (.main pageSize) events).allocs.lookup key = some info)
    (old : ∀ ktime ∈ still.readings, ∀ entry ∈ still.contents.entries,
      entry.2.timestampNs.toNat + still.minAgeNs.toNat ≤ ktime.toNat) :
    ∃ printout, still.result = some (.ok printout) ∧
      CountsHeap heap.owned (Sites.ofRun events).site printout := by
  obtain ⟨printout, printed, aggregates⟩ := still.aggregates
  rw [still.aged_eq old] at aggregates
  have locates : heap.Locates (.main pageSize) _ := .run rfl trace
  refine ⟨printout, printed,
    countsHeap_of_aggregates aggregates still.contents.distinct ?_ ?_ ?_⟩
  · intro entry member
    exact locates.tracks.records _ _ ((complete entry.1 entry.2).mp member)
  · intro entry member
    exact (locates.records _ _ ((complete entry.1 entry.2).mp member)).2
  · intro address requested owned
    have fits := locates.fits address requested owned
    have top : (Rodata.main pageSize).maxSize.toNat = 2 ^ 64 - 1 := rfl
    have upper : requested ≤ (Rodata.main pageSize).maxSize.toNat := by omega
    have recorded := locates.tracks.recorded noFailure address requested owned
      (Nat.zero_le _) upper
    obtain ⟨info, found⟩ := Option.ne_none_iff_exists'.mp recorded
    exact ⟨info, (complete address info).mpr found⟩

/-- On every run of the program without nested calls and without a failed
update, a report that is printed while the program is still, and late enough for
every record, counts the blocks that the program owns and that no call has failed
to resize. -/
theorem report_counts_heap
    (pageSize : U64)
    {events : List Event}
    {estate : Estate}
    (trace : Trace Estate.Step Estate.empty events estate)
    (noFailure : (runEvents (.main pageSize) events).failedUpdates = 0)
    (entries : List (U64 × AllocInfo))
    (distinct : (entries.map Prod.fst).Nodup)
    (complete : ∀ key info, (key, info) ∈ entries ↔
      (runEvents (.main pageSize) events).allocs.lookup key = some info)
    (minAgeNs : U64)
    (qsort : Qsort)
    (allocs : Nat → Allocation)
    (readings : List U64)
    (enough : entries.length < readings.length)
    (late : ∀ ktime ∈ readings, minAgeNs.toNat ≤ ktime.toNat)
    (old : ∀ ktime ∈ readings, ∀ entry ∈ entries,
      entry.2.timestampNs.toNat + minAgeNs.toNat ≤ ktime.toNat) :
    ∃ printout,
      printOutstandingAllocs minAgeNs qsort allocs
        ((stillRounds (.ofRun (.main pageSize) events entries distinct complete) readings).map
          Round.pass) = some (.ok printout) ∧
      CountsHeap estate.counted (Sites.ofRun events).site printout :=
  (StillReport.ofRun (.main pageSize) events entries distinct complete minAgeNs qsort allocs
    readings enough late old).countsHeap (Estate.heap_trace trace) noFailure complete old

namespace Estate

/-- The estate after a call of `malloc`. -/
def afterMalloc (estate : Estate) (stackId : BitVec 32) (size address : U64) : Estate :=
  (estate.enter 1 (.malloc size)).exit (onStack stackId address) (.malloc size)

/-- A call of `malloc` on an idle thread. -/
theorem trace_mallocAt
    {estate : Estate}
    (idle : estate.inCall 1 = none)
    (stackId : BitVec 32)
    (size : U64)
    {address : U64}
    (fresh : estate.owned address = none) :
    Trace Step estate (mallocAt stackId size address)
      (estate.afterMalloc stackId size address) := by
  have succeeds : ¬(Call.malloc size).FailsResize (onStack stackId address) := by
    rintro (⟨isRealloc, -⟩ | ⟨isMremap, -⟩)
    · cases isRealloc
    · cases isMremap
  have inside : (estate.enter 1 (.malloc size)).inCall 1 = some (.malloc size) := by
    simp [enter]
  refine .cons (.enter estate (onStack stackId 0) (.malloc size) idle (by simp [Call.fn]))
    (.cons (.exit _ (onStack stackId address) (.malloc size) inside ?_ ?_) (.nil _))
  · intro other bytes gained
    rw [Estate.gained, if_neg succeeds] at gained
    split at gained
    · cases gained
      exact fresh
    · cases gained
  · intro overflows
    exact absurd (size.isLt) (Nat.not_lt.mpr overflows)

end Estate

/-- After four blocks, a fifth that the program fails to resize. -/
def fourAndOne : List Event :=
  fourMallocs ++ mallocAt 9 40 20480 ++
    [⟨onStack 9 0, .enter (.realloc 20480 80)⟩, ⟨onStack 9 0, .exit .realloc⟩]

theorem mem_fourAndOne_iff (key : U64) (info : AllocInfo) :
    (key, info) ∈ fourRecords ↔
      (runEvents (.main 4096) fourAndOne).allocs.lookup key = some info :=
  BoundedMap.mem_entries_iff_lookup (by decide) (by decide) key info

/-- What the program owns before the resize. -/
def fiveBlocks : Estate :=
  ((((Estate.empty.afterMalloc 7 16 4096).afterMalloc 7 24 8192).afterMalloc
    9 32 12288).afterMalloc (-14) 8 16384).afterMalloc 9 40 20480

/-- What it owns afterwards. -/
def afterFourAndOne : Estate :=
  (fiveBlocks.enter 1 (.realloc 20480 80)).exit (onStack 9 0) (.realloc 20480 80)

theorem trace_fourAndOne : Trace Estate.Step Estate.empty fourAndOne afterFourAndOne := by
  have mallocs : Trace Estate.Step Estate.empty (fourMallocs ++ mallocAt 9 40 20480)
      fiveBlocks :=
    ((((Estate.trace_mallocAt rfl 7 16 rfl).append
      (Estate.trace_mallocAt (by decide) 7 24 (by decide))).append
      (Estate.trace_mallocAt (by decide) 9 32 (by decide))).append
      (Estate.trace_mallocAt (by decide) (-14) 8 (by decide))).append
      (Estate.trace_mallocAt (by decide) 9 40 (by decide))
  refine mallocs.append
    (.cons (.enter fiveBlocks (onStack 9 0) (.realloc 20480 80) (by decide) (by decide))
      (.cons (.exit _ (onStack 9 0) (.realloc 20480 80) (by decide) ?_ (by decide)) (.nil _)))
  intro address size gained
  obtain ⟨rfl, -⟩ := Prod.mk.inj (Option.some.inj gained)
  decide

theorem report_counts_heap_fourAndOne :
    afterFourAndOne.owned 20480 = some 40 ∧ afterFourAndOne.counted 20480 = none ∧
      ∃ printout,
        printOutstandingAllocs 500 Qsort.mergeSort (fun _ => Allocation.ofInfo (recordAt 3 5))
          ((stillRounds (.ofRun (.main 4096) fourAndOne fourRecords (by decide)
            mem_fourAndOne_iff) [1000, 1001, 1002, 1003, 1004]).map Round.pass) =
              some (.ok printout) ∧
        CountsHeap afterFourAndOne.counted (Sites.ofRun fourAndOne).site printout :=
  ⟨by decide, by decide, report_counts_heap 4096 trace_fourAndOne (by decide) fourRecords
    (by decide) mem_fourAndOne_iff 500 Qsort.mergeSort
    (fun _ => Allocation.ofInfo (recordAt 3 5)) [1000, 1001, 1002, 1003, 1004] (by decide)
    (by simp) (by simp [fourRecords, recordAt, allocInfoOf])⟩

end Memleak
end EbpfHub
