import EbpfHub.Memleak.Census
import EbpfHub.Memleak.Main
import EbpfHub.Memleak.Tracepoints

/-!
# The reports of a run of memleak

While `main` sleeps the traced program goes on.  A report that `main` prints
between says what the program owns at that moment, and the tracepoints of the
kernel have no part in it.
-/

namespace EbpfHub
namespace Memleak

open Foundations

/-! ## The programs that are loaded -/

/-- The name of the program of a tracepoint. -/
def Tracepoint.progName : Tracepoint → String
  | .kmalloc _ _ => "memleak__kmalloc"
  | .kmallocNode _ _ => "memleak__kmalloc_node"
  | .kfree _ => "memleak__kfree"
  | .kmemCacheAlloc _ _ => "memleak__kmem_cache_alloc"
  | .kmemCacheAllocNode _ _ => "memleak__kmem_cache_alloc_node"
  | .kmemCacheFree _ => "memleak__kmem_cache_free"
  | .mmPageAlloc _ _ => "memleak__mm_page_alloc"
  | .mmPageFree _ => "memleak__mm_page_free"
  | .percpuAllocPercpu _ _ => "memleak__percpu_alloc_percpu"
  | .percpuFreePercpu _ => "memleak__percpu_free_percpu"

/-- The programs that `disable_kernel_tracepoints` leaves out when the object is
loaded. -/
def disableKernelTracepoints : List String :=
  ["memleak__kmalloc", "memleak__kmalloc_node", "memleak__kfree", "memleak__kmem_cache_alloc",
    "memleak__kmem_cache_alloc_node", "memleak__kmem_cache_free", "memleak__mm_page_alloc",
    "memleak__mm_page_free", "memleak__percpu_alloc_percpu", "memleak__percpu_free_percpu"]

/-- The program of a hit is loaded. -/
def Hit.isLoaded : Hit → Bool
  | .uprobe _ => true
  | .tracepoint _ point => point.progName ∉ disableKernelTracepoints

/-- The event of a uprobe. -/
def Hit.event : Hit → Option Event
  | .uprobe event => some event
  | .tracepoint _ _ => none

/-- The maps after hits, of which the loaded programs run. -/
def runLoaded (rodata : Rodata) (hits : List Hit) : Maps :=
  runHits rodata (hits.filter Hit.isLoaded)

/-- The program of no tracepoint is loaded. -/
theorem Tracepoint.not_isLoaded (ctx : Context) (tracepoint : Tracepoint) :
    (Hit.tracepoint ctx tracepoint).isLoaded = false := by
  have disabled : tracepoint.progName ∈ disableKernelTracepoints := by
    cases tracepoint <;> simp [progName, disableKernelTracepoints]
  rw [Hit.isLoaded, decide_eq_false (not_not.mpr disabled)]

/-- The maps are those of the uprobe events alone. -/
theorem runLoaded_eq (rodata : Rodata) (hits : List Hit) :
    runLoaded rodata hits = runEvents rodata (hits.filterMap Hit.event) := by
  have loaded : hits.filter Hit.isLoaded = (hits.filterMap Hit.event).map .uprobe := by
    induction hits with
    | nil => rfl
    | cons hit hits inductionHypothesis =>
        cases hit with
        | uprobe event =>
            have first : (Hit.uprobe event).isLoaded = true := rfl
            rw [List.filter_cons_of_pos first, inductionHypothesis]
            rfl
        | tracepoint ctx tracepoint =>
            have none := tracepoint.not_isLoaded ctx
            rw [List.filter_cons_of_neg (by simp [none]), inductionHypothesis]
            rfl
  rw [runLoaded, loaded, runHits_uprobe]

/-! ## What a report says -/

/-- The row that a line of a report is the heading of. -/
def ReportLine.counts : ReportLine → Option (U64 × U64)
  | .top _ _ => none
  | .listing line => line.counts
  | .warning _ _ => none
  | .mapError _ => none

section Headings

variable {σ : Type} (getSyms : σ → σ × Bool) (mapAddrDso : σ → U64 → σ × Option Symbols.SymInfo)

/-- A report whose walk comes to its end has a heading for each row. -/
theorem counts_printReport
    {minAgeNs : U64}
    {qsort : Qsort}
    {interval : Interval}
    (lookups : ∀ i stackId errno, interval.lookupElem i stackId ≠ .error (.other errno))
    {globals left : Globals}
    {syms last : σ}
    {lines : List ReportLine}
    {printout : Printout}
    (walked : printOutstandingAllocs minAgeNs qsort globals.allocs interval.passes =
      some (.ok printout))
    (printed : printReport getSyms mapAddrDso minAgeNs qsort interval globals syms =
      some (left, last, lines)) :
    lines.filterMap ReportLine.counts = printout.rows.map fun row => (row.size, row.count) := by
  have listing : ∀ listed : List ListingLine,
      (listed.map ReportLine.listing).filterMap ReportLine.counts =
        listed.filterMap ListingLine.counts := fun _ => List.filterMap_map
  have warning : (if printout.nrMissingStacks > 0 then
        [ReportLine.warning printout.nrMissingStacks printout.nrCollisionStacks]
      else []).filterMap ReportLine.counts = [] := by
    split
    · rfl
    · rfl
  unfold printReport at printed
  rw [walked, Option.map_some] at printed
  dsimp only at printed
  split at printed
  · next empty =>
    cases printed
    rw [warning, empty]
    rfl
  · cases printed
    rw [List.cons_append, List.filterMap_cons_none rfl, List.filterMap_append, listing, warning,
      List.append_nil]
    exact counts_printStackFrames getSyms mapAddrDso lookups _ _ _ _

end Headings

section Session

variable {σ : Type} (getSyms : σ → σ × Bool) (mapAddrDso : σ → U64 → σ × Option Symbols.SymInfo)
variable {minAgeNs : U64} {qsort : Qsort}

/-- Every report of the loop is that of its interval. -/
theorem exists_printReport_of_mainLoop
    {exiting : Bool}
    {nrIntervals : Int}
    {globals : Globals}
    {syms : σ}
    {intervals : List Interval}
    {count : Nat}
    {lines : List ReportLine}
    (printed : (mainLoop getSyms mapAddrDso minAgeNs qsort exiting nrIntervals globals syms
      intervals).reports[count]? = some lines) :
    ∃ interval before left first last, intervals[count]? = some interval ∧
      printReport getSyms mapAddrDso minAgeNs qsort interval before first =
        some (left, last, lines) := by
  induction intervals generalizing exiting nrIntervals globals syms count with
  | nil =>
      unfold mainLoop at printed
      split at printed
      · cases printed
      · cases printed
  | cons interval rest inductionHypothesis =>
      unfold mainLoop at printed
      split at printed
      · cases printed
      · split at printed
        · cases printed
        · cases reported : printReport getSyms mapAddrDso minAgeNs qsort interval globals syms with
          | none =>
              rw [reported] at printed
              cases printed
          | some result =>
              obtain ⟨left, last, shown⟩ := result
              rw [reported] at printed
              cases count with
              | zero =>
                  cases printed
                  exact ⟨interval, globals, left, syms, last, rfl, reported⟩
              | succ count => exact inductionHypothesis printed

end Session

/-! ## The reports of `main` -/

/-- The report that an effect prints. -/
def Effect.lines : Effect → Option (List ReportLine)
  | .report lines => some lines
  | .acquire _ => none
  | .message _ => none
  | .attaching _ => none
  | .sleep _ => none
  | .release _ => none

/-- The reports of a run. -/
def MainRun.reports (run : MainRun) : List (List ReportLine) := run.effects.filterMap Effect.lines

theorem lines_map_acquire (held : List Resource) :
    (held.map Effect.acquire).filterMap Effect.lines = [] := by
  rw [List.filterMap_map]
  exact List.filterMap_eq_nil_iff.mpr fun _ _ => rfl

theorem lines_cleanup (held : List Resource) : (cleanup held).filterMap Effect.lines = [] := by
  rw [cleanup, List.filterMap_map]
  exact List.filterMap_eq_nil_iff.mpr fun _ _ => rfl

theorem lines_effects (session : Session) (env : Env) :
    (session.effects env).filterMap Effect.lines = session.reports := by
  have each : ∀ reports : List (List ReportLine),
      (reports.flatMap fun lines => [Effect.sleep env.interval, .report lines]).filterMap
        Effect.lines = reports := by
    intro reports
    induction reports with
    | nil => rfl
    | cons lines reports inductionHypothesis =>
        rw [List.flatMap_cons, List.filterMap_append, inductionHypothesis]
        rfl
  rw [Session.effects, List.filterMap_cons_none rfl, each]

theorem reports_afterSetUp (held : List Resource) (env : Env) (session : Session) :
    (afterSetUp held env session).reports = session.reports := by
  have front : (held.map Effect.acquire ++ session.effects env).filterMap Effect.lines =
      session.reports := by
    rw [List.filterMap_append, lines_map_acquire, lines_effects, List.nil_append]
  unfold afterSetUp MainRun.reports
  cases session.progress with
  | ended =>
      dsimp only
      rw [List.filterMap_append, front, lines_cleanup, List.append_nil]
  | waiting => exact front
  | overflow => exact front

section Main

variable {σ : Type} (getSyms : σ → σ × Bool) (mapAddrDso : σ → U64 → σ × Option Symbols.SymInfo)
variable (qsort : Qsort) (arguments : List Argument) (outside : Outside)
variable (globals : Globals) (syms : σ)

/-- `main` prints no other reports than its loop. -/
theorem exists_session_of_reports
    {intervals : List Interval}
    {count : Nat}
    {lines : List ReportLine}
    (printed : (main getSyms mapAddrDso qsort arguments outside globals syms
      intervals).reports[count]? = some lines) :
    (sessionOf getSyms mapAddrDso qsort (envOf arguments) outside globals syms
      intervals).reports[count]? = some lines := by
  have silent : ∀ effects ending, effects.filterMap Effect.lines = [] →
      (⟨effects, ending⟩ : MainRun).reports[count]? ≠ some lines := by
    intro effects ending none some
    rw [MainRun.reports, none] at some
    cases some
  by_cases typed : WellTyped arguments
  · cases parses : outside.argpFails with
    | true =>
        rw [main_of_argpFails getSyms mapAddrDso qsort globals syms intervals typed parses]
          at printed
        exact absurd printed (silent _ _ rfl)
    | false =>
        by_cases ready : outside.Ready (envOf arguments).pid
        · rw [main_of_ready getSyms mapAddrDso qsort globals syms intervals typed parses ready,
            reports_afterSetUp] at printed
          exact printed
        · obtain ⟨held, ret, text, -, -, fails⟩ :=
            main_of_not_ready getSyms mapAddrDso qsort globals syms intervals typed parses ready
          rw [fails] at printed
          refine absurd printed (silent _ _ ?_)
          rw [List.filterMap_append, List.filterMap_append, lines_map_acquire, lines_cleanup]
          rfl
  · obtain ⟨text, ends⟩ :=
      @main_of_not_wellTyped σ getSyms mapAddrDso qsort arguments outside globals syms intervals
        typed
    rw [ends] at printed
    exact absurd printed (silent _ _ rfl)

end Main

/-! ## The heap at every report -/

/-- What happens up to a report: the hits since the last one, and what the report
finds. -/
structure Pause where
  hits : List Hit
  interval : Interval

/-- The hits of pauses. -/
def hitsOf (pauses : List Pause) : List Hit := pauses.flatMap Pause.hits

/-- The events of the uprobes in pauses. -/
def eventsOf (pauses : List Pause) : List Event := (hitsOf pauses).filterMap Hit.event

/-- The walk of a report while the program is still, late enough for every
record, where no lookup of a stack fails otherwise than for want of it. -/
structure StillWalk (maps : Maps) (interval : Interval) where
  contents : Contents
  complete : ∀ key info, (key, info) ∈ contents.entries ↔ maps.allocs.lookup key = some info
  readings : List U64
  enough : contents.entries.length < readings.length
  late : ∀ ktime ∈ readings, minAgeNs.toNat ≤ ktime.toNat
  old : ∀ ktime ∈ readings, ∀ entry ∈ contents.entries,
    entry.2.timestampNs.toNat + minAgeNs.toNat ≤ ktime.toNat
  passes : interval.passes = (stillRounds contents readings).map Round.pass
  lookups : ∀ i stackId errno, interval.lookupElem i stackId ≠ .error (.other errno)

namespace StillWalk

variable {maps : Maps} {interval : Interval}

/-- The report over an array. -/
def report
    (walk : StillWalk maps interval)
    (qsort : Qsort)
    (allocs : Nat → Allocation) : StillReport where
  contents := walk.contents
  minAgeNs := minAgeNs
  qsort := qsort
  allocs := allocs
  readings := walk.readings
  enough := walk.enough
  late := walk.late
  afterwards := fun ktime reading entry inside =>
    Nat.le_of_add_right_le (walk.old ktime reading entry inside)

end StillWalk

section Census

variable {σ : Type} (getSyms : σ → σ × Bool) (mapAddrDso : σ → U64 → σ × Option Symbols.SymInfo)
variable (qsort : Qsort) (arguments : List Argument) (outside : Outside)
variable (globals : Globals) (syms : σ)

/-- Whatever the arguments, and whatever hits the tracepoints of the kernel: a
report that `main` prints while the program is still, and late enough, says what
the program owns at that moment and has not failed to resize, a heading for each
stack with the bytes and the number of the blocks that come from it, by decreasing
size. -/
theorem main_reports_heap
    {pauses : List Pause}
    {count : Nat}
    {estate : Estate}
    (trace : Trace Estate.Step Estate.empty (eventsOf (pauses.take (count + 1))) estate)
    (noFailure : (runLoaded (.main outside.pageSize)
      (hitsOf (pauses.take (count + 1)))).failedUpdates = 0)
    (still : ∀ pause, pauses[count]? = some pause →
      Nonempty (StillWalk (runLoaded (.main outside.pageSize) (hitsOf (pauses.take (count + 1))))
        pause.interval))
    {lines : List ReportLine}
    (printed : (main getSyms mapAddrDso qsort arguments outside globals syms
      (pauses.map Pause.interval)).reports[count]? = some lines) :
    ∃ printout : Printout,
      CountsHeap estate.counted (Sites.ofRun (eventsOf (pauses.take (count + 1)))).site printout ∧
      lines.filterMap ReportLine.counts = printout.rows.map fun row => (row.size, row.count) := by
  obtain ⟨interval, before, left, first, last, here, reported⟩ :=
    exists_printReport_of_mainLoop getSyms mapAddrDso
      (exists_session_of_reports getSyms mapAddrDso qsort arguments outside globals syms printed)
  rw [List.getElem?_map, Option.map_eq_some_iff] at here
  obtain ⟨pause, here, rfl⟩ := here
  have calm := still pause here
  rw [runLoaded_eq] at calm noFailure
  obtain ⟨walk⟩ := calm
  obtain ⟨printout, result, counts⟩ :=
    (walk.report qsort before.allocs).countsHeap (Estate.heap_trace trace) noFailure
      walk.complete walk.old
  refine ⟨printout, counts, ?_⟩
  have walked : printOutstandingAllocs minAgeNs qsort before.allocs pause.interval.passes =
      some (.ok printout) := by
    rw [walk.passes]
    exact result
  exact counts_printReport getSyms mapAddrDso walk.lookups walked reported

end Census

/-! ## One report -/

/-- A target whose maps mention `libstdc++`, and which has all symbols. -/
def tracedTarget : Loader.Process where
  maps := some "1000-2000 r-xp 0 8:1 5 /libstdc++.so.6\n".toList
  exe := none
  hasSymbol := fun _ _ => true
  attachErrno := fun _ _ => 2
  attachErrno_pos := fun _ _ => Nat.two_pos

/-- All calls succeed. -/
def allSucceed : Outside where
  argpFails := false
  sigactionErrno := none
  sigactionErrno_pos := by simp
  pageSize := 4096
  stackAllocated := true
  allocsAllocated := true
  opened := true
  load := 0
  process := fun _ => tracedTarget
  attach := 0
  cacheAllocated := true
  signalled := false

/-- The program allocates five blocks and fails to resize the last, and the kernel
allocates one. -/
def fourAndOnePause : Pause where
  hits := .tracepoint (.quiet 1 0) (.kmalloc 24576 64) :: fourAndOne.map .uprobe
  interval :=
    { passes := (stillRounds (.ofRun (.main 4096) fourAndOne fourRecords (by decide)
        mem_fourAndOne_iff) [1000, 1001, 1002, 1003, 1004]).map Round.pass
      lookupElem := fun _ _ => .error .enoent
      tm := (0, 0, 0)
      signal := false }

/-- The walk after it. -/
def fourAndOneWalk :
    StillWalk (runEvents (.main 4096) fourAndOne) fourAndOnePause.interval where
  contents := .ofRun (.main 4096) fourAndOne fourRecords (by decide) mem_fourAndOne_iff
  complete := mem_fourAndOne_iff
  readings := [1000, 1001, 1002, 1003, 1004]
  enough := by decide
  late := by simp [minAgeNs]
  old := by
    have timestamps : ∀ entry ∈ fourRecords, entry.2.timestampNs = 0 := by
      simp [fourRecords, recordAt, allocInfoOf]
    intro ktime reading entry inside
    rw [timestamps entry inside]
    revert ktime
    simp [minAgeNs]
  passes := rfl
  lookups := fun _ _ _ other => by cases other

/-- The arguments `-p 12`. -/
def onePid : List Argument := [.pid "12".toList]

theorem wellTyped_onePid : WellTyped onePid where
  positive := by
    intro argument member
    rw [List.mem_singleton.mp member]
    exact ⟨12, by decide, ⟨[], Strtol.readNumeral_eq_some_iff.mp rfl⟩, by decide⟩
  few := by decide

theorem ready_allSucceed : allSucceed.Ready (envOf onePid).pid where
  signals := rfl
  typed := by decide
  stack := rfl
  allocs := rfl
  opened := rfl
  load := rfl
  attachable := ⟨fun _ _ => rfl, .inl (by decide +kernel)⟩
  attach := rfl
  cache := rfl

/-- A report is printed. -/
theorem exists_report_fourAndOne :
    ∃ lines, (main (fun syms : Unit => (syms, true)) (fun syms _ => (syms, none)) Qsort.mergeSort
      onePid allSucceed ⟨emptyReport.allocs, fun _ => 0⟩ ()
      ([fourAndOnePause].map Pause.interval)).reports[0]? = some lines := by
  have going : ¬(false = true ∨ (envOf onePid).nrIntervals.toInt = 0) := by decide
  have inRange : (envOf onePid).nrIntervals.toInt ≠ -2 ^ 31 := by decide
  obtain ⟨printout, walked⟩ :=
    (fourAndOneWalk.report Qsort.mergeSort emptyReport.allocs).found_eq.1
  have reported : ∃ left last lines,
      printReport (fun syms : Unit => (syms, true)) (fun syms _ => (syms, none)) minAgeNs
        Qsort.mergeSort fourAndOnePause.interval ⟨emptyReport.allocs, fun _ => 0⟩ () =
          some (left, last, lines) := by
    have walks : printOutstandingAllocs minAgeNs Qsort.mergeSort emptyReport.allocs
        fourAndOnePause.interval.passes = some (.ok printout) := walked
    unfold printReport
    rw [walks]
    exact ⟨_, _, _, rfl⟩
  obtain ⟨left, last, lines, reported⟩ := reported
  rw [main_of_ready _ _ _ _ _ _ wellTyped_onePid rfl ready_allSucceed, reports_afterSetUp]
  have signalled : allSucceed.signalled = false := rfl
  unfold sessionOf
  rw [List.map_singleton, signalled, mainLoop, if_neg going, if_neg inRange, reported]
  exact ⟨lines, rfl⟩

/-- The report about these blocks. -/
theorem main_reports_heap_fourAndOne :
    ∃ (lines : List ReportLine) (printout : Printout),
      (main (fun syms : Unit => (syms, true)) (fun syms _ => (syms, none)) Qsort.mergeSort
        onePid allSucceed ⟨emptyReport.allocs, fun _ => 0⟩ ()
        ([fourAndOnePause].map Pause.interval)).reports[0]? = some lines ∧
      CountsHeap afterFourAndOne.counted (Sites.ofRun fourAndOne).site printout ∧
      lines.filterMap ReportLine.counts = printout.rows.map fun row => (row.size, row.count) := by
  have loaded : runLoaded (.main allSucceed.pageSize) (hitsOf [fourAndOnePause]) =
      runEvents (.main 4096) fourAndOne := runLoaded_eq _ _
  have noFailure : (runLoaded (.main allSucceed.pageSize)
      (hitsOf [fourAndOnePause])).failedUpdates = 0 := by
    rw [loaded]
    decide
  have still : ∀ pause, [fourAndOnePause][0]? = some pause →
      Nonempty (StillWalk (runLoaded (.main allSucceed.pageSize) (hitsOf [fourAndOnePause]))
        pause.interval) := by
    intro pause here
    obtain rfl := Option.some.inj here
    exact ⟨loaded ▸ fourAndOneWalk⟩
  have trace : Trace Estate.Step Estate.empty (eventsOf ([fourAndOnePause].take (0 + 1)))
      afterFourAndOne := trace_fourAndOne
  obtain ⟨lines, printed⟩ := exists_report_fourAndOne
  obtain ⟨printout, counts⟩ := main_reports_heap _ _ Qsort.mergeSort onePid allSucceed
    ⟨emptyReport.allocs, fun _ => 0⟩ () trace noFailure still printed
  exact ⟨lines, printout, printed, counts⟩

end Memleak
end EbpfHub
