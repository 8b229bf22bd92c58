import EbpfHub.Memleak.FramePrinter

/-!
# The listing of the rows

`print_stack_frames` prints every row of a report and the frames of its stack.
The frames come from the manual stack of the row or from the map of stacks,
whose answer it reads through one global array.
-/

namespace EbpfHub
namespace Memleak

open Symbols (SymInfo)

/-- `env.perf_max_stack_depth`. -/
abbrev perfMaxStackDepth : Nat := 127

/-- The words of the global array `stack`, which are also the value of an entry
of the map of stacks. -/
abbrev StackWords := Fin perfMaxStackDepth → U64

/-- What is printed for a row. -/
inductive ListingLine
  /-- `"%zu bytes in %zu allocations from stack\n"`. -/
  | heading (size count : U64)
  /-- A frame with its index and what was found for its address, `none` for
  `"<null sym>"`. -/
  | frame (i : Nat) (addr : U64) (sinfo : Option SymInfo)
  | manual (line : StackLine)
  /-- `"Failed to get syms\n"`. -/
  | failedToGetSyms
  /-- `"failed to lookup stack trace"` and what `errno` says. -/
  | failedLookup (errno : Nat)

/-- The listing of rows, and what it leaves in the global array and in the cache
of symbols. -/
structure Listing (σ : Type) where
  lines : List ListingLine
  /-- It ended with an error. -/
  failed : Bool
  stack : StackWords
  syms : σ

section Printer

/-! `getSyms` is `syms_cache__get_syms` for `env.pid`, which says whether there
are symbols, and `mapAddrDso` is `syms__map_addr_dso` in them, both for calls
that return and over whatever state the cache has. -/

variable {σ : Type} (getSyms : σ → σ × Bool) (mapAddrDso : σ → U64 → σ × Option SymInfo)

/-- The loop of `print_stack_frames_by_syms_cache`. -/
def stackFrameLoop (stack : StackWords) :
    List (Fin perfMaxStackDepth) → σ → σ × List ListingLine
  | [], syms => (syms, [])
  | i :: rest, syms =>
      let addr := stack i
      if addr = 0 then (syms, [])
      else
        match mapAddrDso syms addr with
        | (syms, sinfo) =>
            match stackFrameLoop stack rest syms with
            | (syms, lines) => (syms, .frame i addr sinfo :: lines)

/-- `print_stack_frames_by_syms_cache`. -/
def printStackFramesBySymsCache (stack : StackWords) (syms : σ) : σ × List ListingLine :=
  match getSyms syms with
  | (syms, false) => (syms, [.failedToGetSyms])
  | (syms, true) => stackFrameLoop mapAddrDso stack (List.finRange perfMaxStackDepth) syms

/-- The state after addresses have been looked up. -/
def afterLookups (syms : σ) (lookups : List U64) : σ :=
  lookups.foldl (fun syms addr => (mapAddrDso syms addr).1) syms

/-- `print_manual_stack_frames` for a row. -/
def printManualStack (alloc : Allocation) (syms : σ) : σ × List ListingLine :=
  match getSyms syms with
  | (syms, false) => (syms, [.failedToGetSyms])
  | (syms, true) =>
      let printed := printManualStackFrames mapAddrDso (some syms) alloc.manualStack
        alloc.manualStackCnt
      (afterLookups mapAddrDso syms printed.lookups, printed.lines.map .manual)

/-- `print_stack_frames`, from the row of an index on.  The map of stacks is
asked for the low half of the identifier in the row, and may answer each call
differently. -/
def printStackFrames (lookupElem : Nat → BitVec 32 → Except Errno StackWords) :
    Nat → List Allocation → StackWords → σ → Listing σ
  | _, [], stack, syms => ⟨[], false, stack, syms⟩
  | i, alloc :: rest, stack, syms =>
      let heading := .heading alloc.size alloc.count
      if alloc.manualStackCnt > 0 then
        match printManualStack getSyms mapAddrDso alloc syms with
        | (syms, lines) =>
            let others := printStackFrames lookupElem (i + 1) rest stack syms
            { others with lines := heading :: lines ++ others.lines }
      else
        match lookupElem i (alloc.stackId.setWidth 32) with
        | .error .enoent =>
            let others := printStackFrames lookupElem (i + 1) rest stack syms
            { others with lines := heading :: others.lines }
        | .error (.other errno) => ⟨[heading, .failedLookup errno], true, stack, syms⟩
        | .ok stack =>
            match printStackFramesBySymsCache getSyms mapAddrDso stack syms with
            | (syms, lines) =>
                let others := printStackFrames lookupElem (i + 1) rest stack syms
                { others with lines := heading :: lines ++ others.lines }

/-! ## The global array -/

/-- The listing is the same whatever the global array holds, and it leaves the
same in the cache of symbols: no frame of an earlier stack is printed again. -/
theorem printStackFrames_of_any_stack
    (lookupElem : Nat → BitVec 32 → Except Errno StackWords)
    (rows : List Allocation)
    (i : Nat)
    (first second : StackWords)
    (syms : σ) :
    (printStackFrames getSyms mapAddrDso lookupElem i rows first syms).lines =
        (printStackFrames getSyms mapAddrDso lookupElem i rows second syms).lines ∧
      (printStackFrames getSyms mapAddrDso lookupElem i rows first syms).syms =
        (printStackFrames getSyms mapAddrDso lookupElem i rows second syms).syms := by
  induction rows generalizing i syms with
  | nil => exact ⟨rfl, rfl⟩
  | cons alloc rest inductionHypothesis =>
      unfold printStackFrames
      dsimp only
      split
      · have others := inductionHypothesis (i + 1)
          (printManualStack getSyms mapAddrDso alloc syms).1
        exact ⟨congrArg (_ ++ ·) others.1, others.2⟩
      · cases lookupElem i (alloc.stackId.setWidth 32) with
        | error errno =>
            cases errno with
            | enoent =>
                have others := inductionHypothesis (i + 1) syms
                exact ⟨congrArg (_ :: ·) others.1, others.2⟩
            | other errno => exact ⟨rfl, rfl⟩
        | ok stack => exact ⟨rfl, rfl⟩

/-! ## What is shown -/

/-- What a listing shows of the rows and of the stacks from the map, without
what was found for the addresses. -/
inductive Shown
  | row (size count : U64)
  | frame (i : Nat) (addr : U64)
  deriving DecidableEq

/-- What a line shows, if it is about a row or a stack from the map. -/
def ListingLine.shown : ListingLine → Option Shown
  | .heading size count => some (.row size count)
  | .frame i addr _ => some (.frame i addr)
  | .manual _ => none
  | .failedToGetSyms => none
  | .failedLookup _ => none

/-- The words of a stack before the first one that is zero, with their
positions. -/
def leadingFrames (stack : StackWords) : List Shown :=
  ((List.finRange perfMaxStackDepth).takeWhile fun i => stack i ≠ 0).map fun i =>
    .frame i.val (stack i)

/-- What is shown for the row of an index. -/
def shownRow
    (lookupElem : Nat → BitVec 32 → Except Errno StackWords)
    (entry : Allocation × Nat) : List Shown :=
  .row entry.1.size entry.1.count ::
    if entry.1.manualStackCnt > 0 then []
    else
      match lookupElem entry.2 (entry.1.stackId.setWidth 32) with
      | .error _ => []
      | .ok stack => leadingFrames stack

/-- The stack of the row is looked up, and the lookup fails with an error other
than that there is none. -/
def endsAt
    (lookupElem : Nat → BitVec 32 → Except Errno StackWords)
    (entry : Allocation × Nat) : Bool :=
  if entry.1.manualStackCnt > 0 then false
  else
    match lookupElem entry.2 (entry.1.stackId.setWidth 32) with
    | .error (.other _) => true
    | .error .enoent => false
    | .ok _ => false

/-- The items up to the first one that ends them, which is included. -/
def upTo (ends : α → Bool) : List α → List α
  | [] => []
  | item :: items => if ends item then [item] else item :: upTo ends items

/-- Every line of a stack from the map is a frame of it. -/
theorem shown_stackFrameLoop
    (stack : StackWords)
    (slots : List (Fin perfMaxStackDepth))
    (syms : σ) :
    (stackFrameLoop mapAddrDso stack slots syms).2.filterMap ListingLine.shown =
      (slots.takeWhile fun i => stack i ≠ 0).map fun i => Shown.frame i.val (stack i) := by
  induction slots generalizing syms with
  | nil => rfl
  | cons i rest inductionHypothesis =>
      unfold stackFrameLoop
      dsimp only
      by_cases zero : stack i = 0
      · rw [if_pos zero, List.takeWhile_cons_of_neg (by simpa using zero)]
        rfl
      · rw [if_neg zero, List.takeWhile_cons_of_pos (by simpa using zero), List.map_cons,
          ← inductionHypothesis (mapAddrDso syms (stack i)).1]
        rfl

/-- The lines of a manual stack show nothing of the map. -/
theorem shown_map_manual (lines : List StackLine) :
    (lines.map ListingLine.manual).filterMap ListingLine.shown = [] := by
  rw [List.filterMap_eq_nil_iff]
  intro line member
  obtain ⟨manual, -, rfl⟩ := List.mem_map.mp member
  rfl

/-- Where the process has symbols, the listing shows the rows in order, up to
the first one whose stack cannot be read, and under each row the frames of its
own stack, numbered from zero. -/
theorem listing_shows_each_row
    (hasSyms : ∀ syms, (getSyms syms).2 = true)
    (lookupElem : Nat → BitVec 32 → Except Errno StackWords)
    (rows : List Allocation)
    (i : Nat)
    (stack : StackWords)
    (syms : σ) :
    (printStackFrames getSyms mapAddrDso lookupElem i rows stack syms).lines.filterMap
        ListingLine.shown =
        (upTo (endsAt lookupElem) (rows.zipIdx i)).flatMap (shownRow lookupElem) ∧
      (printStackFrames getSyms mapAddrDso lookupElem i rows stack syms).failed =
        (rows.zipIdx i).any (endsAt lookupElem) := by
  have known : ∀ syms, getSyms syms = ((getSyms syms).1, true) :=
    fun syms => Prod.ext rfl (hasSyms syms)
  induction rows generalizing i stack syms with
  | nil => exact ⟨rfl, rfl⟩
  | cons alloc rest inductionHypothesis =>
      have heading : ListingLine.shown (.heading alloc.size alloc.count) =
          some (.row alloc.size alloc.count) := rfl
      rw [List.zipIdx_cons, upTo, List.any_cons]
      by_cases manual : alloc.manualStackCnt > 0
      · have continues : endsAt lookupElem (alloc, i) = false := if_pos manual
        have frames : shownRow lookupElem (alloc, i) = [.row alloc.size alloc.count] :=
          congrArg (_ :: ·) (if_pos manual)
        have others := inductionHypothesis (i + 1) stack
          (printManualStack getSyms mapAddrDso alloc syms).1
        have hidden : (printManualStack getSyms mapAddrDso alloc syms).2.filterMap
            ListingLine.shown = [] := by
          rw [printManualStack, known]
          exact shown_map_manual _
        rw [continues, printStackFrames, if_pos manual, Bool.false_or, if_neg Bool.false_ne_true,
          List.flatMap_cons, frames, ← others.1, ← others.2]
        refine ⟨?_, rfl⟩
        dsimp only
        rw [List.cons_append, List.filterMap_cons_some heading, List.filterMap_append, hidden]
        rfl
      · have rowOf : ∀ frames, (match lookupElem i (alloc.stackId.setWidth 32) with
              | .error _ => []
              | .ok stack => leadingFrames stack) = frames →
            shownRow lookupElem (alloc, i) = .row alloc.size alloc.count :: frames :=
          fun frames same => congrArg (_ :: ·) ((if_neg manual).trans same)
        cases answer : lookupElem i (alloc.stackId.setWidth 32) with
        | error errno =>
            have frames := rowOf [] (by rw [answer])
            cases errno with
            | enoent =>
                have continues : endsAt lookupElem (alloc, i) = false := by
                  simp [endsAt, manual, answer]
                have others := inductionHypothesis (i + 1) stack syms
                rw [continues, printStackFrames, if_neg manual, answer, Bool.false_or,
                  if_neg Bool.false_ne_true, List.flatMap_cons, frames, ← others.1, ← others.2]
                exact ⟨List.filterMap_cons_some heading, rfl⟩
            | other errno =>
                have ends : endsAt lookupElem (alloc, i) = true := by
                  simp [endsAt, manual, answer]
                rw [ends, printStackFrames, if_neg manual, answer, Bool.true_or, if_pos rfl,
                  List.flatMap_singleton, frames]
                exact ⟨rfl, rfl⟩
        | ok words =>
            have frames := rowOf (leadingFrames words) (by rw [answer])
            have continues : endsAt lookupElem (alloc, i) = false := by
              simp [endsAt, manual, answer]
            have others := inductionHypothesis (i + 1) words
              (printStackFramesBySymsCache getSyms mapAddrDso words syms).1
            have printed : (printStackFramesBySymsCache getSyms mapAddrDso words syms).2.filterMap
                ListingLine.shown = leadingFrames words := by
              rw [printStackFramesBySymsCache, known]
              exact shown_stackFrameLoop mapAddrDso words _ _
            rw [continues, printStackFrames, if_neg manual, answer, Bool.false_or,
              if_neg Bool.false_ne_true, List.flatMap_cons, frames, ← printed, ← others.1,
              ← others.2]
            refine ⟨?_, rfl⟩
            dsimp only
            rw [List.cons_append, List.filterMap_cons_some heading, List.filterMap_append]
            rfl

/-! ## Headings -/

/-- The row that a line of a listing is the heading of. -/
def ListingLine.counts : ListingLine → Option (U64 × U64)
  | .heading size count => some (size, count)
  | .frame _ _ _ => none
  | .manual _ => none
  | .failedToGetSyms => none
  | .failedLookup _ => none

/-- The frames of a stack from the map are no headings. -/
theorem counts_stackFrameLoop
    (stack : StackWords)
    (slots : List (Fin perfMaxStackDepth))
    (syms : σ) :
    (stackFrameLoop mapAddrDso stack slots syms).2.filterMap ListingLine.counts = [] := by
  induction slots generalizing syms with
  | nil => rfl
  | cons i rest inductionHypothesis =>
      unfold stackFrameLoop
      dsimp only
      split
      · rfl
      · exact inductionHypothesis (mapAddrDso syms (stack i)).1

theorem counts_printStackFramesBySymsCache (stack : StackWords) (syms : σ) :
    (printStackFramesBySymsCache getSyms mapAddrDso stack syms).2.filterMap
      ListingLine.counts = [] := by
  unfold printStackFramesBySymsCache
  split
  · rfl
  · exact counts_stackFrameLoop mapAddrDso stack _ _

/-- The lines of a manual stack are no headings. -/
theorem counts_printManualStack (alloc : Allocation) (syms : σ) :
    (printManualStack getSyms mapAddrDso alloc syms).2.filterMap ListingLine.counts = [] := by
  unfold printManualStack
  split
  · rfl
  · rw [List.filterMap_eq_nil_iff]
    intro line member
    obtain ⟨manual, -, rfl⟩ := List.mem_map.mp member
    rfl

/-- Where no lookup of a stack fails otherwise than for want of it, every row has
its heading, in the order of the rows. -/
theorem counts_printStackFrames
    {lookupElem : Nat → BitVec 32 → Except Errno StackWords}
    (lookups : ∀ i stackId errno, lookupElem i stackId ≠ .error (.other errno))
    (rows : List Allocation)
    (i : Nat)
    (stack : StackWords)
    (syms : σ) :
    (printStackFrames getSyms mapAddrDso lookupElem i rows stack syms).lines.filterMap
      ListingLine.counts = rows.map fun row => (row.size, row.count) := by
  induction rows generalizing i stack syms with
  | nil => rfl
  | cons alloc rest inductionHypothesis =>
      have heading : ListingLine.counts (.heading alloc.size alloc.count) =
          some (alloc.size, alloc.count) := rfl
      unfold printStackFrames
      dsimp only
      rw [List.map_cons]
      split
      · rw [List.cons_append, List.filterMap_cons_some heading, List.filterMap_append,
          counts_printManualStack, inductionHypothesis]
        rfl
      · cases answer : lookupElem i (alloc.stackId.setWidth 32) with
        | error errno =>
            cases errno with
            | enoent => rw [List.filterMap_cons_some heading, inductionHypothesis]
            | other errno => exact absurd answer (lookups i _ errno)
        | ok words =>
            dsimp only
            rw [List.cons_append, List.filterMap_cons_some heading, List.filterMap_append,
              counts_printStackFramesBySymsCache, inductionHypothesis]
            rfl

end Printer

/-- A stack of two words. -/
def twoWords : StackWords := fun i => if i = 0 then 4096 else if i = 1 then 8192 else 0

/-- Two frames are shown for one row, whatever the array held before. -/
theorem listing_shows_each_row_twoWords :
    (printStackFrames (fun syms : Unit => (syms, true)) (fun syms _ => (syms, none))
          (fun _ _ => .ok twoWords) 0 [emptyReport.allocs 0] (fun _ => 4096) ()).lines.filterMap
        ListingLine.shown =
        (upTo (endsAt fun _ _ => .ok twoWords) ([emptyReport.allocs 0].zipIdx 0)).flatMap
          (shownRow fun _ _ => .ok twoWords) ∧
      (printStackFrames (fun syms : Unit => (syms, true)) (fun syms _ => (syms, none))
          (fun _ _ => .ok twoWords) 0 [emptyReport.allocs 0] (fun _ => 4096) ()).failed =
        ([emptyReport.allocs 0].zipIdx 0).any (endsAt fun _ _ => .ok twoWords) :=
  listing_shows_each_row _ _ (fun _ => rfl) _ _ _ _ _

end Memleak
end EbpfHub
