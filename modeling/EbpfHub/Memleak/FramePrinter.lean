import EbpfHub.Memleak.Frames
import EbpfHub.Symbols.Mappings
import Mathlib.Data.List.TakeWhile

/-!
# The printer of captured frames

`print_manual_stack_frames` of `memleak.c`, and which of the captured frames it
looks up.  The writer of the frames delimits them by a count; the reader also
stops at a frame that is zero.
-/

namespace EbpfHub
namespace Memleak

open Symbols (SymInfo)

/-- A line that is printed for a stack. -/
inductive StackLine
  /-- `"\tCall stack:\n"`. -/
  | callStack
  /-- A frame with its index and what was found for its address. -/
  | frame (frameIdx : Nat) (addr : U64) (sinfo : SymInfo)
  /-- `"\t(no symbols resolved)\n"`. -/
  | noSymbolsResolved

/-- What the printing of a stack does: the addresses that it passes to
`syms__map_addr_dso`, and the lines that it prints. -/
structure StackPrintout where
  lookups : List U64
  lines : List StackLine

section Printer

/-! `mapAddrDso` is `syms__map_addr_dso` for lookups that return, over whatever
state the objects have. -/

variable (mapAddrDso : σ → U64 → σ × Option SymInfo)

/-- The loop over the frames. -/
def frameLoop (manualStack : ManualStack) (cnt : Int) :
    List (Fin maxManualStackDepth) → σ → Nat → StackPrintout
  | [], _, _ => ⟨[], []⟩
  | i :: rest, syms, frameIdx =>
      if (i.val : Int) < cnt then
        let addr := manualStack i
        if addr = 0 then ⟨[], []⟩
        else
          match mapAddrDso syms addr with
          | (syms, some sinfo) =>
              let printed := frameLoop manualStack cnt rest syms (frameIdx + 1)
              ⟨addr :: printed.lookups, .frame frameIdx addr sinfo :: printed.lines⟩
          | (syms, none) =>
              let printed := frameLoop manualStack cnt rest syms frameIdx
              ⟨addr :: printed.lookups, printed.lines⟩
      else ⟨[], []⟩

/-- `print_manual_stack_frames`, with the objects that `syms_cache__get_syms`
returns, `none` for `NULL`. -/
def printManualStackFrames
    (syms : Option σ)
    (manualStack : ManualStack)
    (cnt : Int) : StackPrintout :=
  match syms with
  | none => ⟨[], []⟩
  | some syms =>
      let printed := frameLoop mapAddrDso manualStack cnt
        (List.finRange maxManualStackDepth) syms 0
      ⟨printed.lookups,
        .callStack :: printed.lines ++ if printed.lines = [] then [.noSymbolsResolved] else []⟩

end Printer

/-! ## Which frames are looked up -/

/-- The loop looks up the frames below the count, in order, up to the first
one that is zero. -/
theorem lookups_frameLoop
    (mapAddrDso : σ → U64 → σ × Option SymInfo)
    (manualStack : ManualStack)
    (cnt : Int)
    (slots : List (Fin maxManualStackDepth))
    (increasing : slots.Pairwise (· < ·))
    (syms : σ)
    (frameIdx : Nat) :
    (frameLoop mapAddrDso manualStack cnt slots syms frameIdx).lookups =
      ((slots.filter fun i => (i.val : Int) < cnt).map manualStack).takeWhile (· ≠ 0) := by
  induction slots generalizing syms frameIdx with
  | nil => rfl
  | cons i rest inductionHypothesis =>
      obtain ⟨above, restIncreasing⟩ := List.pairwise_cons.mp increasing
      unfold frameLoop
      by_cases below : (i.val : Int) < cnt
      · have kept : (i :: rest).filter (fun i => (i.val : Int) < cnt) =
            i :: rest.filter fun i => (i.val : Int) < cnt :=
          List.filter_cons_of_pos (by simpa using below)
        rw [if_pos below, kept, List.map_cons]
        by_cases zero : manualStack i = 0
        · rw [List.takeWhile_cons_of_neg (by simp [zero])]
          dsimp only
          rw [if_pos zero]
        · rw [List.takeWhile_cons_of_pos (by simpa using zero)]
          dsimp only
          rw [if_neg zero]
          cases mapAddrDso syms (manualStack i) with
          | mk syms found =>
              cases found with
              | some sinfo =>
                  dsimp only
                  rw [inductionHypothesis restIncreasing]
              | none =>
                  dsimp only
                  rw [inductionHypothesis restIncreasing]
      · have noneBelow : (i :: rest).filter (fun i => (i.val : Int) < cnt) = [] := by
          refine List.filter_eq_nil_iff.mpr fun j member => ?_
          rw [decide_eq_true_iff]
          rcases List.mem_cons.mp member with rfl | later
          · exact below
          · have order : i.val < j.val := above j later
            omega
        rw [if_neg below, noneBelow]
        rfl

/-- What is looked up when the symbols have been loaded. -/
theorem lookups_printManualStackFrames
    (mapAddrDso : σ → U64 → σ × Option SymInfo)
    (syms : σ)
    (manualStack : ManualStack)
    (cnt : Int) :
    (printManualStackFrames mapAddrDso (some syms) manualStack cnt).lookups =
      (manualFrames manualStack cnt).takeWhile (· ≠ 0) :=
  lookups_frameLoop mapAddrDso manualStack cnt _ (List.pairwise_lt_finRange _) syms 0

/-- The slots of a captured stack below its count are the captured words, each
minus one. -/
theorem Captures.manualFrames_eq
    {ctx : Context}
    {manualStack : ManualStack}
    {manualStackCnt : Int}
    (captures : Captures ctx manualStack manualStackCnt) :
    manualFrames manualStack manualStackCnt = ctx.stackPrefix.map (· - 1) := by
  have short := ctx.length_stackPrefix_le
  have inRange : (List.range maxManualStackDepth).filter (· < ctx.stackPrefix.length) =
      List.range ctx.stackPrefix.length := by
    obtain ⟨others, depth⟩ := Nat.exists_eq_add_of_le short
    rw [depth, List.range_add, List.filter_append, List.filter_eq_self.mpr,
      List.filter_eq_nil_iff.mpr, List.append_nil]
    · intro index member
      obtain ⟨other, -, rfl⟩ := List.mem_map.mp member
      simp
    · intro index member
      exact decide_eq_true (List.mem_range.mp member)
  calc
    manualFrames manualStack manualStackCnt
        = ((List.finRange maxManualStackDepth).filter fun i =>
            i.val < ctx.stackPrefix.length).map fun i =>
              (ctx.stackPrefix[i.val]?).elim 0 (· - 1) := by
          unfold manualFrames
          rw [captures.count]
          simp only [Nat.cast_lt]
          exact List.map_congr_left fun i _ => captures.slots i
    _ = ((List.range maxManualStackDepth).filter (· < ctx.stackPrefix.length)).map fun index =>
          (ctx.stackPrefix[index]?).elim 0 (· - 1) := by
          rw [← List.map_coe_finRange_eq_range, List.filter_map, List.map_map]
          rfl
    _ = ctx.stackPrefix.map (· - 1) := by
          rw [inRange]
          refine List.ext_getElem (by simp) fun index inFirst inSecond => ?_
          have inside : index < ctx.stackPrefix.length := by simpa using inFirst
          simp [List.getElem?_eq_getElem inside]

/-- The printer looks up exactly the captured words of the user stack, each
minus one, in order. -/
def LooksUpAllFrames
    (mapAddrDso : σ → U64 → σ × Option SymInfo)
    (syms : σ)
    (ctx : Context)
    (row : Allocation) : Prop :=
  (printManualStackFrames mapAddrDso (some syms) row.manualStack row.manualStackCnt).lookups =
    ctx.stackPrefix.map (· - 1)

/-- For every record and the row that the report starts with it, the printer
looks up all frames that were captured at the enter that the record stems from
if and only if none of the captured words is one. -/
theorem looks_up_all_frames_iff
    (mapAddrDso : σ → U64 → σ × Option SymInfo)
    (syms : σ)
    {rodata : Rodata}
    {hits : List Hit}
    {address : U64}
    {info : AllocInfo}
    {index : Nat}
    {exit enter : Hit}
    {sinfo : SizeInfo}
    (origin : RecordOrigin rodata hits hits.length address info index exit enter sinfo)
    {report : Report}
    (new : Report.findStack report.allocs (info.stackId.signExtend 64) report.nrAllocs 0 = none) :
    LooksUpAllFrames mapAddrDso syms enter.ctx ((report.addInfo info).allocs report.nrAllocs) ↔
      1 ∉ enter.ctx.stackPrefix := by
  have captures := origin.captures
  have row : (report.addInfo info).allocs report.nrAllocs = Allocation.ofInfo info :=
    Report.addInfo_new new
  have stack : (Allocation.ofInfo info).manualStack = info.manualStack := captures.copy
  have count : (Allocation.ofInfo info).manualStackCnt = info.manualStackCnt := rfl
  have shifted : ∀ word : U64, word - 1 ≠ 0 ↔ word ≠ 1 := fun word => not_congr sub_eq_zero
  unfold LooksUpAllFrames
  rw [row, lookups_printManualStackFrames, stack, count, captures.manualFrames_eq,
    List.takeWhile_eq_self_iff]
  constructor
  · intro nonzero member
    have isNonzero := nonzero (1 - 1) (List.mem_map.mpr ⟨1, member, rfl⟩)
    exact absurd isNonzero (by decide)
  · intro noOne frame member
    obtain ⟨word, inPrefix, rfl⟩ := List.mem_map.mp member
    exact decide_eq_true ((shifted word).mpr fun same => noOne (same ▸ inPrefix))

/-! ## One call -/

/-- A thread with the words at its stack pointer, and no other readable word. -/
def stackOf (words : List U64) : Context :=
  { Context.quiet 1 0 with readUser := fun address => words[address.toNat / 8]? }

/-- A call of `malloc` with the words on the stack. -/
def mallocOver (words : List U64) : List Hit :=
  [.uprobe ⟨stackOf words, .enter (.malloc 16)⟩, .uprobe ⟨.quiet 1 4096, .exit .malloc⟩]

/-- What the enter of the call captures. -/
def capturedOver (words : List U64) : SizeInfo :=
  captureSizeInfo 16 0 0 (stackOf words).readUser

/-- The report before it has any row. -/
def emptyReport : Report := .start fun _ => Allocation.ofInfo (allocInfoOf (capturedOver []) 0)

/-- Where the record of the call stems from, if the maps hold what the enter
and the exit store. -/
theorem recordOrigin_mallocOver
    {words : List U64}
    (entered : (runHits (.main 4096) ((mallocOver words).take 1)).sizes.lookup 1 =
      some (capturedOver words))
    (recorded : (runHits (.main 4096) ((mallocOver words).take 2)).allocs.lookup 4096 =
      some (allocInfoOf (capturedOver words) 0)) :
    RecordOrigin (.main 4096) (mallocOver words) 2 4096 (allocInfoOf (capturedOver words) 0) 1
      (.uprobe ⟨.quiet 1 4096, .exit .malloc⟩)
      (.uprobe ⟨stackOf words, .enter (.malloc 16)⟩) (capturedOver words) where
  earlier := by decide
  found := rfl
  made := rfl
  entered := by
    have accepted : (Rodata.main 4096).Accepts 16 0 := by decide
    have captured : captureOf (.main 4096) (stackOf words) 16 = some (capturedOver words) :=
      if_pos accepted
    refine .inl ⟨0, by decide, rfl, rfl, captured, ?_⟩
    intro between after atMost
    obtain rfl : between = 1 := by omega
    exact entered
  kept := by
    intro between after atMost
    obtain rfl : between = 2 := by omega
    exact recorded

/-- Two frames are looked up. -/
theorem looks_up_all_frames_iff_twoFrames :
    LooksUpAllFrames (fun (syms : Unit) _ => (syms, none)) () (stackOf [1000, 2000])
      ((emptyReport.addInfo (allocInfoOf (capturedOver [1000, 2000]) 0)).allocs
        emptyReport.nrAllocs) :=
  (looks_up_all_frames_iff _ () (recordOrigin_mallocOver (by decide) (by decide)) rfl).mpr
    (by decide)

/-- Of the three captured frames 999, 0 and 1999 only the first is looked up. -/
theorem oneAmongFrames_not_looked_up :
    RecordOrigin (.main 4096) (mallocOver [1000, 1, 2000]) 2 4096
        (allocInfoOf (capturedOver [1000, 1, 2000]) 0) 1 (.uprobe ⟨.quiet 1 4096, .exit .malloc⟩)
        (.uprobe ⟨stackOf [1000, 1, 2000], .enter (.malloc 16)⟩)
        (capturedOver [1000, 1, 2000]) ∧
      (capturedOver [1000, 1, 2000]).manualStackCnt = 3 ∧
      ¬LooksUpAllFrames (fun (syms : Unit) _ => (syms, none)) () (stackOf [1000, 1, 2000])
        ((emptyReport.addInfo (allocInfoOf (capturedOver [1000, 1, 2000]) 0)).allocs
          emptyReport.nrAllocs) := by
  refine ⟨recordOrigin_mallocOver (by decide) (by decide), by decide, fun complete => ?_⟩
  have lookups : (printManualStackFrames (fun (syms : Unit) _ => (syms, none)) (some ())
      ((emptyReport.addInfo (allocInfoOf (capturedOver [1000, 1, 2000]) 0)).allocs
        emptyReport.nrAllocs).manualStack 3).lookups = [999] := by
    decide
  have words : (stackOf [1000, 1, 2000]).stackPrefix = [1000, 1, 2000] := by decide
  rw [LooksUpAllFrames, words] at complete
  exact absurd (lookups.symm.trans complete) (by decide)

end Memleak
end EbpfHub
