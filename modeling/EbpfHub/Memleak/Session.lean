import EbpfHub.Memleak.Listing
import EbpfHub.Memleak.Rows

/-!
# The main loop

The loop of `main` prints a report after every interval.  The reports share two
global arrays, and no report depends on what an earlier one left in them.
-/

namespace EbpfHub
namespace Memleak

/-! ## One report -/

/-- The global arrays `allocs` and `stack`. -/
structure Globals where
  allocs : Nat → Allocation
  stack : StackWords

/-- What one pass of the loop of `main` finds. -/
structure Interval where
  /-- The answers to the walk over the map `allocs`. -/
  passes : List Pass
  /-- `bpf_map_lookup_elem` in the map of stacks. -/
  lookupElem : Nat → BitVec 32 → Except Errno StackWords
  /-- `tm_hour`, `tm_min` and `tm_sec`. -/
  tm : Nat × Nat × Nat
  /-- A signal has arrived when `exiting` is tested next. -/
  signal : Bool

/-- What a report prints. -/
inductive ReportLine
  /-- `"[%d:%d:%d] Top %zu stacks with outstanding allocations:\n"`. -/
  | top (tm : Nat × Nat × Nat) (nrAllocs : Nat)
  | listing (line : ListingLine)
  /-- `"WARNING: %zu stack traces could not be displayed ..."`. -/
  | warning (nrMissingStacks nrCollisionStacks : Nat)
  /-- That a call for the map failed, and what `errno` says. -/
  | mapError (errno : Nat)

section Session

variable {σ : Type} (getSyms : σ → σ × Bool) (mapAddrDso : σ → U64 → σ × Option Symbols.SymInfo)
variable (minAgeNs : U64) (qsort : Qsort)

/-- The call of `print_outstanding_allocs` after an interval: the arrays and the
cache of symbols that it leaves, and its lines.  It is `none` while the walk has
not ended. -/
def printReport
    (interval : Interval)
    (globals : Globals)
    (syms : σ) : Option (Globals × σ × List ReportLine) :=
  (printOutstandingAllocs minAgeNs qsort globals.allocs interval.passes).map fun result =>
    match result with
    | .error (errno, report) => (⟨report.allocs, globals.stack⟩, syms, [.mapError errno])
    | .ok printout =>
        let warning :=
          if printout.nrMissingStacks > 0 then
            [.warning printout.nrMissingStacks printout.nrCollisionStacks]
          else []
        if printout.rows = [] then (⟨printout.allocs, globals.stack⟩, syms, warning)
        else
          let listing := printStackFrames getSyms mapAddrDso interval.lookupElem 0 printout.rows
            globals.stack syms
          (⟨printout.allocs, listing.stack⟩, listing.syms,
            .top interval.tm printout.rows.length :: listing.lines.map .listing ++ warning)

/-! ## The loop -/

/-- How far the loop has come. -/
inductive Progress
  | ended
  /-- It waits for the end of an interval or of a walk. -/
  | waiting
  /-- `env.nr_intervals--` leaves the type `int`. -/
  | overflow
  deriving DecidableEq

/-- The reports that have been printed, and how far the loop has come. -/
structure Session where
  reports : List (List ReportLine)
  progress : Progress

/-- The loop of `main`, with `exiting` and `env.nr_intervals`, over what its
passes find. -/
def mainLoop : Bool → Int → Globals → σ → List Interval → Session
  | exiting, nrIntervals, _, _, [] =>
      if exiting = true ∨ nrIntervals = 0 then ⟨[], .ended⟩ else ⟨[], .waiting⟩
  | exiting, nrIntervals, globals, syms, interval :: rest =>
      if exiting = true ∨ nrIntervals = 0 then ⟨[], .ended⟩
      else if nrIntervals = -2 ^ 31 then ⟨[], .overflow⟩
      else
        match printReport getSyms mapAddrDso minAgeNs qsort interval globals syms with
        | none => ⟨[], .waiting⟩
        | some (globals, syms, lines) =>
            let others := mainLoop interval.signal (nrIntervals - 1) globals syms rest
            { others with reports := lines :: others.reports }

/-- The loop in which every report finds the arrays as they were at the
start. -/
def mainLoopWith (globals : Globals) : Bool → Int → σ → List Interval → Session
  | exiting, nrIntervals, _, [] =>
      if exiting = true ∨ nrIntervals = 0 then ⟨[], .ended⟩ else ⟨[], .waiting⟩
  | exiting, nrIntervals, syms, interval :: rest =>
      if exiting = true ∨ nrIntervals = 0 then ⟨[], .ended⟩
      else if nrIntervals = -2 ^ 31 then ⟨[], .overflow⟩
      else
        match printReport getSyms mapAddrDso minAgeNs qsort interval globals syms with
        | none => ⟨[], .waiting⟩
        | some (_, syms, lines) =>
            let others := mainLoopWith globals interval.signal (nrIntervals - 1) syms rest
            { others with reports := lines :: others.reports }

end Session

/-! ## Reports over different arrays -/

/-- The reports have the same rows in use and the same counters. -/
structure Report.Same (first second : Report) : Prop where
  rows : first.rows = second.rows
  nrMissingStacks : first.nrMissingStacks = second.nrMissingStacks
  nrCollisionStacks : first.nrCollisionStacks = second.nrCollisionStacks

namespace Report.Same

theorem start (first second : Nat → Allocation) :
    (Report.start first).Same (Report.start second) :=
  ⟨rfl, rfl, rfl⟩

/-- A record is counted in the same way. -/
theorem visit
    {first second : Report}
    (same : first.Same second)
    (minAgeNs ktime : U64)
    (info : AllocInfo) :
    (first.visit minAgeNs ktime info).Same (second.visit minAgeNs ktime info) := by
  have counters : ∀ report : Report,
      (report.addInfo info).nrMissingStacks = report.nrMissingStacks ∧
        (report.addInfo info).nrCollisionStacks = report.nrCollisionStacks := by
    intro report
    unfold Report.addInfo
    split
    · exact ⟨rfl, rfl⟩
    · exact ⟨rfl, rfl⟩
  unfold Report.visit
  split
  · exact same
  · split
    · refine ⟨same.rows, ?_, ?_⟩
      · dsimp only
        rw [same.nrMissingStacks]
      · dsimp only
        rw [same.nrCollisionStacks]
    · refine ⟨?_, ?_, ?_⟩
      · rw [Report.rows_addInfo, Report.rows_addInfo, same.rows]
      · rw [(counters first).1, (counters second).1, same.nrMissingStacks]
      · rw [(counters first).2, (counters second).2, same.nrCollisionStacks]

end Report.Same

/-- What a walk ends with over different arrays. -/
inductive SameEnd : Option (Except (Nat × Report) Report) →
    Option (Except (Nat × Report) Report) → Prop
  | none : SameEnd none none
  | failed (errno : Nat) (first second : Report) :
      SameEnd (some (.error (errno, first))) (some (.error (errno, second)))
  | complete {first second : Report} :
      first.Same second → SameEnd (some (.ok first)) (some (.ok second))

/-- The walk counts the same over different arrays. -/
theorem walk_same
    {first second : Report}
    (same : first.Same second)
    (minAgeNs prevKey : U64)
    (passes : List Pass) :
    SameEnd (walk minAgeNs prevKey first passes) (walk minAgeNs prevKey second passes) := by
  induction passes generalizing first second prevKey with
  | nil => exact .none
  | cons pass passes inductionHypothesis =>
      unfold walk
      cases pass.getNextKey prevKey with
      | error errno =>
          cases errno with
          | enoent => exact .complete same
          | other errno => exact .failed errno first second
      | ok currKey =>
          dsimp only
          cases pass.lookupElem currKey with
          | error errno =>
              cases errno with
              | enoent => exact inductionHypothesis same currKey
              | other errno => exact .failed errno first second
          | ok info => exact inductionHypothesis (same.visit minAgeNs pass.ktime info) currKey

section Independence

variable {σ : Type} (getSyms : σ → σ × Bool) (mapAddrDso : σ → U64 → σ × Option Symbols.SymInfo)
variable (minAgeNs : U64) (qsort : Qsort)

/-- A report prints the same over different arrays, and leaves the same in the
cache of symbols. -/
theorem printReport_of_any_globals
    (interval : Interval)
    (first second : Globals)
    (syms : σ) :
    (printReport getSyms mapAddrDso minAgeNs qsort interval first syms).map Prod.snd =
      (printReport getSyms mapAddrDso minAgeNs qsort interval second syms).map Prod.snd := by
  unfold printReport printOutstandingAllocs
  have same := walk_same (.start first.allocs second.allocs) minAgeNs 0 interval.passes
  cases walked : walk minAgeNs 0 (Report.start first.allocs) interval.passes with
  | none =>
      rw [walked] at same
      cases other : walk minAgeNs 0 (Report.start second.allocs) interval.passes with
      | none => rfl
      | some result =>
          rw [other] at same
          cases same
  | some result =>
      rw [walked] at same
      cases other : walk minAgeNs 0 (Report.start second.allocs) interval.passes with
      | none =>
          rw [other] at same
          cases same
      | some otherResult =>
          rw [other] at same
          cases same with
          | failed errno => rfl
          | complete same =>
              obtain ⟨rows, missing, collisions⟩ := same
              simp only [Option.map_some, Except.map, rows, missing, collisions]
              split
              · rfl
              · have listing := printStackFrames_of_any_stack getSyms mapAddrDso
                  interval.lookupElem (qsort.sort ‹Report›.rows) 0 first.stack second.stack syms
                simp only [listing.1, listing.2]

/-- However many reports the loop prints, and whatever the arrays hold at the
start, every report is the one that is printed over any other arrays: nothing
but the cache of symbols is carried over from report to report. -/
theorem session_carries_nothing_over
    (globals fresh : Globals)
    (exiting : Bool)
    (nrIntervals : Int)
    (syms : σ)
    (intervals : List Interval) :
    mainLoop getSyms mapAddrDso minAgeNs qsort exiting nrIntervals globals syms intervals =
      mainLoopWith getSyms mapAddrDso minAgeNs qsort fresh exiting nrIntervals syms
        intervals := by
  induction intervals generalizing exiting nrIntervals globals syms with
  | nil => rfl
  | cons interval rest inductionHypothesis =>
      unfold mainLoop mainLoopWith
      have same := printReport_of_any_globals getSyms mapAddrDso minAgeNs qsort interval globals
        fresh syms
      split
      · rfl
      · split
        · rfl
        · cases printed : printReport getSyms mapAddrDso minAgeNs qsort interval globals syms with
          | none =>
              rw [printed, Option.map_none, eq_comm, Option.map_eq_none_iff] at same
              rw [same]
          | some result =>
              rw [printed, Option.map_some, eq_comm, Option.map_eq_some_iff] at same
              obtain ⟨left, shown⟩ := result
              obtain ⟨⟨otherLeft, _⟩, otherPrinted, rfl⟩ := same
              rw [otherPrinted]
              dsimp only
              rw [inductionHypothesis]

end Independence

/-! ## How many reports are printed -/

section Count

variable {σ : Type} (getSyms : σ → σ × Bool) (mapAddrDso : σ → U64 → σ × Option Symbols.SymInfo)
variable (minAgeNs : U64) (qsort : Qsort)

/-- The walk of the interval comes to an end. -/
def Interval.Completes (minAgeNs : U64) (interval : Interval) : Prop :=
  ∀ report, (walk minAgeNs 0 report interval.passes).isSome

/-- A report whose walk ends is printed. -/
theorem exists_printReport
    {interval : Interval}
    (completes : interval.Completes minAgeNs)
    (globals : Globals)
    (syms : σ) :
    ∃ result, printReport getSyms mapAddrDso minAgeNs qsort interval globals syms =
      some result := by
  obtain ⟨ending, walked⟩ := Option.isSome_iff_exists.mp
    (completes (Report.start globals.allocs))
  unfold printReport printOutstandingAllocs
  rw [walked]
  exact ⟨_, rfl⟩

/-- The intervals that are waited for: those up to the first that a signal
ends. -/
def untilSignal (intervals : List Interval) : List Interval :=
  upTo Interval.signal intervals

theorem untilSignal_cons (interval : Interval) (rest : List Interval) :
    untilSignal (interval :: rest) =
      interval :: if interval.signal then [] else untilSignal rest := by
  rw [untilSignal, upTo]
  cases interval.signal with
  | true => rfl
  | false => rfl

theorem mainLoop_of_exiting
    (nrIntervals : Int)
    (globals : Globals)
    (syms : σ)
    (intervals : List Interval) :
    mainLoop getSyms mapAddrDso minAgeNs qsort true nrIntervals globals syms intervals =
      ⟨[], .ended⟩ := by
  cases intervals with
  | nil => exact if_pos (.inl rfl)
  | cons interval rest => exact if_pos (.inl rfl)

/-- A number of intervals that is positive bounds the number of the reports,
which a signal ends early: after the interval in which it arrives one more
report is printed. -/
theorem session_of_nonneg
    (count : Nat)
    (globals : Globals)
    (syms : σ)
    {intervals : List Interval}
    (complete : ∀ interval ∈ intervals, interval.Completes minAgeNs) :
    (mainLoop getSyms mapAddrDso minAgeNs qsort false count globals syms intervals).reports.length =
        min count (untilSignal intervals).length ∧
      ((mainLoop getSyms mapAddrDso minAgeNs qsort false count globals syms intervals).progress =
          if count ≤ (untilSignal intervals).length ∨ intervals.any Interval.signal = true then
            .ended
          else .waiting) := by
  induction intervals generalizing count globals syms with
  | nil =>
      cases count with
      | zero => exact ⟨rfl, rfl⟩
      | succ count =>
          have going : ¬(false = true ∨ ((count + 1 : Nat) : Int) = 0) := by
            rw [not_or]
            exact ⟨Bool.false_ne_true, by omega⟩
          rw [mainLoop, if_neg going]
          exact ⟨rfl, rfl⟩
  | cons interval rest inductionHypothesis =>
      cases count with
      | zero =>
          rw [mainLoop, if_pos (.inr rfl), Nat.zero_min, if_pos (.inl (Nat.zero_le _))]
          exact ⟨rfl, rfl⟩
      | succ count =>
          have going : ¬(false = true ∨ ((count + 1 : Nat) : Int) = 0) := by
            rw [not_or]
            exact ⟨Bool.false_ne_true, by omega⟩
          have inRange : ((count + 1 : Nat) : Int) ≠ -2 ^ 31 := by omega
          obtain ⟨here, others⟩ := List.forall_mem_cons.mp complete
          obtain ⟨⟨left, shown⟩, printed⟩ := exists_printReport getSyms mapAddrDso minAgeNs qsort
            here globals syms
          have next : ((count + 1 : Nat) : Int) - 1 = count := by omega
          rw [mainLoop, if_neg going, if_neg inRange, printed, untilSignal_cons, next]
          dsimp only
          cases signal : interval.signal with
          | true =>
              rw [mainLoop_of_exiting]
              simp [signal]
          | false =>
              obtain ⟨length, progress⟩ := inductionHypothesis count left shown.1 others
              simp only [List.length_cons, length, progress, Bool.false_eq_true, if_false,
                List.any_cons, signal, Bool.false_or, Nat.add_le_add_iff_right]
              exact ⟨(Nat.add_min_add_right ..).symm, trivial⟩

/-- A negative number of intervals is no bound while it stays an `int`. -/
theorem session_of_negative
    {nrIntervals : Int}
    (negative : nrIntervals < 0)
    (globals : Globals)
    (syms : σ)
    {intervals : List Interval}
    (complete : ∀ interval ∈ intervals, interval.Completes minAgeNs)
    (few : (intervals.length : Int) ≤ 2 ^ 31 + nrIntervals) :
    (mainLoop getSyms mapAddrDso minAgeNs qsort false nrIntervals globals syms
        intervals).reports.length = (untilSignal intervals).length ∧
      (mainLoop getSyms mapAddrDso minAgeNs qsort false nrIntervals globals syms
          intervals).progress =
        if intervals.any Interval.signal = true then .ended else .waiting := by
  induction intervals generalizing nrIntervals globals syms with
  | nil =>
      have going : ¬(false = true ∨ nrIntervals = 0) := by
        rw [not_or]
        exact ⟨Bool.false_ne_true, by omega⟩
      rw [mainLoop, if_neg going]
      exact ⟨rfl, rfl⟩
  | cons interval rest inductionHypothesis =>
      have going : ¬(false = true ∨ nrIntervals = 0) := by
        rw [not_or]
        exact ⟨Bool.false_ne_true, by omega⟩
      rw [List.length_cons] at few
      have inRange : nrIntervals ≠ -2 ^ 31 := by omega
      obtain ⟨here, others⟩ := List.forall_mem_cons.mp complete
      obtain ⟨⟨left, shown⟩, printed⟩ := exists_printReport getSyms mapAddrDso minAgeNs qsort
        here globals syms
      rw [mainLoop, if_neg going, if_neg inRange, printed, untilSignal_cons]
      dsimp only
      cases signal : interval.signal with
      | true =>
          rw [mainLoop_of_exiting]
          simp [signal]
      | false =>
          have below : nrIntervals - 1 < 0 := by omega
          obtain ⟨length, progress⟩ := inductionHypothesis below left shown.1 others (by omega)
          simp only [List.length_cons, length, progress, Bool.false_eq_true, if_false,
            List.any_cons, signal, Bool.false_or, and_self]

/-- With a positive `env.nr_intervals` the loop prints so many reports and ends,
or fewer if a signal arrives: then it prints one more and ends.  With a negative
one, such as the default, it prints a report for every interval up to a
signal. -/
theorem session_report_count
    (nrIntervals : U32)
    (globals : Globals)
    (syms : σ)
    {intervals : List Interval}
    (complete : ∀ interval ∈ intervals, interval.Completes minAgeNs) :
    (0 ≤ nrIntervals.toInt →
      (mainLoop getSyms mapAddrDso minAgeNs qsort false nrIntervals.toInt globals syms
          intervals).reports.length =
        min nrIntervals.toInt.toNat (untilSignal intervals).length ∧
      ((mainLoop getSyms mapAddrDso minAgeNs qsort false nrIntervals.toInt globals syms
          intervals).progress = .ended ↔
        nrIntervals.toInt.toNat ≤ (untilSignal intervals).length ∨
          ∃ interval ∈ intervals, interval.signal = true)) ∧
    (nrIntervals.toInt < 0 → (intervals.length : Int) ≤ 2 ^ 31 + nrIntervals.toInt →
      (mainLoop getSyms mapAddrDso minAgeNs qsort false nrIntervals.toInt globals syms
          intervals).reports.length = (untilSignal intervals).length ∧
      ((mainLoop getSyms mapAddrDso minAgeNs qsort false nrIntervals.toInt globals syms
          intervals).progress = .ended ↔
        ∃ interval ∈ intervals, interval.signal = true)) := by
  have signals : intervals.any Interval.signal = true ↔
      ∃ interval ∈ intervals, interval.signal = true :=
    List.any_eq_true
  constructor
  · intro nonneg
    obtain ⟨count, same⟩ := Int.eq_ofNat_of_zero_le nonneg
    rw [same, Int.toNat_natCast]
    obtain ⟨length, progress⟩ := session_of_nonneg getSyms mapAddrDso minAgeNs qsort count
      globals syms complete
    refine ⟨length, ?_⟩
    rw [progress, ← signals]
    split
    · next ends => exact iff_of_true rfl ends
    · next goes => exact iff_of_false (by simp) goes
  · intro negative few
    obtain ⟨length, progress⟩ := session_of_negative getSyms mapAddrDso minAgeNs qsort negative
      globals syms complete few
    refine ⟨length, ?_⟩
    rw [progress, ← signals]
    split
    · next ends => exact iff_of_true rfl ends
    · next goes => exact iff_of_false (by simp) goes

/-- An interval after which no allocation is outstanding. -/
def quietInterval (signal : Bool) : Interval where
  passes := [⟨fun _ => .error .enoent, fun _ => .error .enoent, 0⟩]
  lookupElem := fun _ _ => .error .enoent
  tm := (0, 0, 0)
  signal := signal

/-- Two reports were asked for, and a signal arrives during the first. -/
theorem session_report_count_signal :
    (mainLoop (fun syms : Unit => (syms, true)) (fun syms _ => (syms, none)) 500 Qsort.mergeSort
        false (2 : U32).toInt ⟨emptyReport.allocs, fun _ => 0⟩ ()
        [quietInterval true, quietInterval false]).reports.length =
      min (2 : U32).toInt.toNat
        (untilSignal [quietInterval true, quietInterval false]).length := by
  refine ((session_report_count _ _ 500 Qsort.mergeSort 2 _ () ?_).1 (by decide)).1
  intro interval member report
  rcases List.mem_cons.mp member with rfl | second
  · rfl
  · rw [List.mem_singleton.mp second]
    rfl

end Count

end Memleak
end EbpfHub
