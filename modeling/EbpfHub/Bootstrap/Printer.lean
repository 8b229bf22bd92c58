import EbpfHub.Bootstrap.Handlers
import Mathlib.Data.List.Forall2
import Mathlib.Data.List.OfFn
import Mathlib.Data.List.TakeWhile

/-!
# What bootstrap prints

`handle_event` of `bootstrap.c` prints a line for every sample.  The programs
fill a part of the memory that they reserve, and the rest stays what it was; two
runs that differ in that rest only print the same lines.
-/

namespace EbpfHub
namespace Bootstrap

open Foundations

/-! ## The lines -/

/-- The string in an array of characters, `none` when it has no end there. -/
def cString (buffer : Buffer length) : Option (List Char) :=
  if 0 ∈ List.ofFn buffer then
    some (((List.ofFn buffer).takeWhile (· ≠ 0)).map fun byte => Char.ofNat byte.toNat)
  else none

/-- `%-*s`, a text that is padded on the right. -/
def padded (width : Nat) (text : List Char) : List Char :=
  text ++ List.replicate (width - text.length) ' '

/-- `%d`, `%u` and `%llu`. -/
def decimal (value : Int) : List Char := (toString value).toList

/-- The readings of the clock, the first that of the first call of
`handle_event`, and the hour and the minute that `localtime` makes of one. -/
structure Clock where
  time : Nat → Int
  localtime : Int → Nat × Nat

/-- Two digits. -/
def twoDigits (value : Nat) : List Char :=
  [Nat.digitChar (value / 10 % 10), Nat.digitChar (value % 10)]

/-- `strftime` with `"%H:%M:%s"`, whose last directive gives the seconds since
the epoch. -/
def Clock.strftime (clock : Clock) (t : Int) : List Char :=
  twoDigits (clock.localtime t).1 ++ ':' :: twoDigits (clock.localtime t).2 ++ ':' :: decimal t

/-- The columns that both kinds of lines begin with. -/
def columns (ts kind comm : List Char) (pid ppid : Pid) : List Char :=
  padded 8 ts ++ ' ' :: padded 5 kind ++ ' ' :: padded 16 comm ++
    ' ' :: padded 7 (decimal pid.toInt) ++ ' ' :: padded 7 (decimal ppid.toInt) ++ [' ']

/-- The line of an exit. -/
def exitLine
    (ts comm : List Char)
    (pid ppid : Pid)
    (exitCode : BitVec 32)
    (durationNs : BitVec 64) : List Char :=
  columns ts "EXIT".toList comm pid ppid ++ '[' :: decimal exitCode.toNat ++ [']'] ++
    (if durationNs ≠ 0 then
      " (".toList ++ decimal (durationNs.toNat / 1000000 : Nat) ++ "ms)".toList
    else []) ++ ['\n']

/-- The line of an exec. -/
def execLine (ts comm filename : List Char) (pid ppid : Pid) : List Char :=
  columns ts "EXEC".toList comm pid ppid ++ filename ++ ['\n']

/-- `handle_event`: the line that it prints, `none` when it reads a string that
has no end. -/
def handleEvent (ts : List Char) (e : Event) : Option (List Char) :=
  if e.exitEvent then
    (cString e.comm).map fun comm => exitLine ts comm e.pid e.ppid e.exitCode e.durationNs
  else
    (cString e.comm).bind fun comm =>
      (cString e.filename).map fun filename => execLine ts comm filename e.pid e.ppid

/-- The lines of the calls of `handle_event` for a list of samples, after the
number of calls. -/
def printLines (clock : Clock) : Nat → List Event → Option (List (List Char))
  | _, [] => some []
  | calls, e :: samples =>
      (handleEvent (clock.strftime (clock.time calls)) e).bind fun line =>
        (printLines clock (calls + 1) samples).map (line :: ·)

/-- The lines of a run. -/
def printed
    (minDurationNs : BitVec 64)
    (clock : Clock)
    (invocations : List Invocation) : Option (List (List Char)) :=
  printLines clock 0 (runInvocations minDurationNs invocations).submitted

/-! ## Strings that are left in a buffer -/

/-- The function leaves a string with its end, whatever the buffer held. -/
def LeavesString (fill : Buffer length → Buffer length) : Prop :=
  ∃ text : List (BitVec 8), 0 ∉ text ∧
    ∀ buffer, ∃ rest, List.ofFn (fill buffer) = text ++ 0 :: rest

/-- What is printed of such a buffer does not depend on what it held. -/
theorem LeavesString.cString
    {fill : Buffer length → Buffer length}
    (leaves : LeavesString fill) :
    ∃ text, ∀ buffer, Bootstrap.cString (fill buffer) = some text := by
  obtain ⟨text, nonzero, split⟩ := leaves
  refine ⟨text.map fun byte => Char.ofNat byte.toNat, fun buffer => ?_⟩
  obtain ⟨rest, content⟩ := split buffer
  have all : ∀ byte ∈ text, decide (byte ≠ 0) = true := by
    intro byte member
    refine decide_eq_true fun zero => nonzero ?_
    rwa [← zero]
  have taken : (text ++ 0 :: rest).takeWhile (fun byte : BitVec 8 => decide (byte ≠ 0)) = text := by
    rw [List.takeWhile_append_of_pos all, List.takeWhile_cons_of_neg (by decide), List.append_nil]
  rw [Bootstrap.cString, content, if_pos (by simp), taken]

/-! ## Two runs -/

/-- The contexts differ at most in what the reserved memory held before. -/
inductive Context.Agrees : Context → Context → Prop
  | intro (ctx : Context) {reserved : Option Event} :
      ctx.reserved.isSome = reserved.isSome →
      Agrees ctx { ctx with reserved := reserved }

/-- So do the invocations. -/
structure Invocation.Agrees (first second : Invocation) : Prop where
  tracepoint : first.tracepoint = second.tracepoint
  ctx : first.ctx.Agrees second.ctx

/-- The functions that fill the strings of a sample leave one. -/
structure Context.LeavesStrings (ctx : Context) : Prop where
  comm : LeavesString ctx.comm
  filename : LeavesString ctx.filename

/-- What is printed of an exec is what its program has filled. -/
theorem handleEvent_execSample
    {ctx : Context}
    (leaves : ctx.LeavesStrings) :
    ∃ comm filename, ∀ ts e, handleEvent ts (execSample ctx e) =
      some (execLine ts comm filename ctx.pid ctx.parentTgid) := by
  obtain ⟨comm, commLeft⟩ := leaves.comm.cString
  obtain ⟨filename, filenameLeft⟩ := leaves.filename.cString
  refine ⟨comm, filename, fun ts e => ?_⟩
  have exec : ¬(execSample ctx e).exitEvent = true := Bool.false_ne_true
  rw [handleEvent, if_neg exec]
  dsimp only [execSample]
  rw [commLeft, filenameLeft]
  rfl

/-- So it is of an exit. -/
theorem handleEvent_exitSample
    {ctx : Context}
    (leaves : ctx.LeavesStrings)
    (durationNs : BitVec 64) :
    ∃ comm, ∀ ts e, handleEvent ts (exitSample ctx durationNs e) =
      some (exitLine ts comm ctx.pid ctx.parentTgid ((ctx.exitCode.sshiftRight 8) &&& 0xff)
        durationNs) := by
  obtain ⟨comm, commLeft⟩ := leaves.comm.cString
  refine ⟨comm, fun ts e => ?_⟩
  have exit : (exitSample ctx durationNs e).exitEvent = true := rfl
  rw [handleEvent, if_pos exit]
  dsimp only [exitSample]
  rw [commLeft]
  rfl

/-- The same line is printed for both samples. -/
def SameLine (first second : Event) : Prop :=
  ∀ ts, ∃ line, handleEvent ts first = some line ∧ handleEvent ts second = some line

/-- The states have the same map, and the same lines are printed for their
samples. -/
structure State.Agrees (first second : State) : Prop where
  execStart : first.execStart = second.execStart
  submitted : List.Forall₂ SameLine first.submitted second.submitted

section Agrees

variable {first second : State}

theorem State.Agrees.updateExecStart
    (agrees : first.Agrees second)
    (pid : Pid)
    (ts : BitVec 64) :
    (first.updateExecStart pid ts).Agrees (second.updateExecStart pid ts) := by
  unfold State.updateExecStart
  rw [agrees.execStart]
  cases second.execStart.tryInsert pid ts with
  | none => exact agrees
  | some execStart => exact ⟨rfl, agrees.submitted⟩

theorem State.Agrees.deleteExecStart
    (agrees : first.Agrees second)
    (pid : Pid) :
    (first.deleteExecStart pid).Agrees (second.deleteExecStart pid) := by
  refine ⟨?_, agrees.submitted⟩
  unfold State.deleteExecStart
  rw [agrees.execStart]

/-- Samples with the same line can be submitted in both states. -/
theorem State.Agrees.submit
    (agrees : first.Agrees second)
    {reserved other : Option Event}
    (reserves : reserved.isSome = other.isSome)
    {fill : Event → Event}
    (same : ∀ e e', SameLine (fill e) (fill e')) :
    (first.submit reserved fill).Agrees (second.submit other fill) := by
  cases reserved with
  | none =>
      obtain rfl := Option.not_isSome_iff_eq_none.mp (ne_true_of_eq_false reserves.symm)
      exact agrees
  | some e =>
      obtain ⟨e', rfl⟩ := Option.isSome_iff_exists.mp reserves.symm
      refine ⟨agrees.execStart, ?_⟩
      exact List.rel_append agrees.submitted (.cons (same e e') .nil)

/-- Both programs agree on what is printed. -/
theorem State.Agrees.handleExec
    (agrees : first.Agrees second)
    {ctx : Context}
    (leaves : ctx.LeavesStrings)
    {reserved : Option Event}
    (reserves : ctx.reserved.isSome = reserved.isSome)
    (minDurationNs : BitVec 64) :
    (Bootstrap.handleExec minDurationNs ctx first).Agrees
      (Bootstrap.handleExec minDurationNs { ctx with reserved := reserved } second) := by
  have updated := agrees.updateExecStart ctx.pid ctx.ktime
  unfold Bootstrap.handleExec
  dsimp only
  split
  · exact updated
  · refine updated.submit reserves fun e e' ts => ?_
    obtain ⟨comm, filename, line⟩ := handleEvent_execSample leaves
    exact ⟨_, line ts e, line ts e'⟩

theorem State.Agrees.finishExit
    (agrees : first.Agrees second)
    {ctx : Context}
    (leaves : ctx.LeavesStrings)
    {reserved : Option Event}
    (reserves : ctx.reserved.isSome = reserved.isSome)
    (minDurationNs durationNs : BitVec 64) :
    (Bootstrap.finishExit minDurationNs ctx durationNs first).Agrees
      (Bootstrap.finishExit minDurationNs { ctx with reserved := reserved } durationNs second) := by
  have deleted := agrees.deleteExecStart ctx.pid
  unfold Bootstrap.finishExit
  dsimp only
  split
  · exact deleted
  · refine deleted.submit reserves fun e e' ts => ?_
    obtain ⟨comm, line⟩ := handleEvent_exitSample leaves durationNs
    exact ⟨_, line ts e, line ts e'⟩

theorem State.Agrees.handleExit
    (agrees : first.Agrees second)
    {ctx : Context}
    (leaves : ctx.LeavesStrings)
    {reserved : Option Event}
    (reserves : ctx.reserved.isSome = reserved.isSome)
    (minDurationNs : BitVec 64) :
    (Bootstrap.handleExit minDurationNs ctx first).Agrees
      (Bootstrap.handleExit minDurationNs { ctx with reserved := reserved } second) := by
  have finished := agrees.finishExit leaves reserves minDurationNs
  have samePid : ({ ctx with reserved := reserved } : Context).pid = ctx.pid := rfl
  have sameTid : ({ ctx with reserved := reserved } : Context).tid = ctx.tid := rfl
  unfold Bootstrap.handleExit
  rw [samePid, sameTid, agrees.execStart]
  split
  · exact agrees
  · cases second.execStart.lookup ctx.pid with
    | some startTs => exact finished (ctx.ktime - startTs)
    | none =>
        dsimp only
        split
        · exact agrees
        · exact finished 0

/-- A step of runs that agree. -/
theorem State.Agrees.step
    (agrees : first.Agrees second)
    {invocation other : Invocation}
    (leaves : invocation.ctx.LeavesStrings)
    (agree : invocation.Agrees other)
    (minDurationNs : BitVec 64) :
    (Bootstrap.step minDurationNs first invocation).Agrees
      (Bootstrap.step minDurationNs second other) := by
  obtain ⟨otherCtx, otherTracepoint⟩ := other
  obtain ⟨rfl, contexts⟩ := agree
  obtain ⟨reserves⟩ := contexts
  unfold Bootstrap.step
  cases invocation.tracepoint with
  | schedProcessExec => exact agrees.handleExec leaves reserves minDurationNs
  | schedProcessExit => exact agrees.handleExit leaves reserves minDurationNs

/-- Runs that agree. -/
theorem State.Agrees.run
    (agrees : first.Agrees second)
    {invocations others : List Invocation}
    (agree : List.Forall₂ Invocation.Agrees invocations others)
    (leaves : ∀ invocation ∈ invocations, invocation.ctx.LeavesStrings)
    (minDurationNs : BitVec 64) :
    (Foundations.run (Bootstrap.step minDurationNs) first invocations).Agrees
      (Foundations.run (Bootstrap.step minDurationNs) second others) := by
  have both := (List.forall₂_and_left _ _).mpr ⟨leaves, agree⟩
  refine List.rel_foldl ?_ agrees both
  intro _ _ states _ _ ⟨strings, same⟩
  exact states.step strings same minDurationNs

end Agrees

/-- The lines of samples that print the same are the same. -/
theorem printLines_of_sameLine
    (clock : Clock)
    {samples others : List Event}
    (same : List.Forall₂ SameLine samples others)
    (calls : Nat) :
    ∃ lines, printLines clock calls samples = some lines ∧
      printLines clock calls others = some lines := by
  induction same generalizing calls with
  | nil => exact ⟨[], rfl, rfl⟩
  | cons head _ inductionHypothesis =>
      obtain ⟨line, first, second⟩ := head (clock.strftime (clock.time calls))
      obtain ⟨lines, firsts, seconds⟩ := inductionHypothesis (calls + 1)
      refine ⟨line :: lines, ?_, ?_⟩
      · rw [printLines, first, Option.bind_some, firsts, Option.map_some]
      · rw [printLines, second, Option.bind_some, seconds, Option.map_some]

/-- Two runs of the programs that differ at most in what the reserved memory
held before print the same lines, at the same readings of the clock, and none of
them reads past the end of a string. -/
theorem stale_bytes_never_show
    (minDurationNs : BitVec 64)
    (clock : Clock)
    {invocations others : List Invocation}
    (agree : List.Forall₂ Invocation.Agrees invocations others)
    (leaves : ∀ invocation ∈ invocations, invocation.ctx.LeavesStrings) :
    ∃ lines, printed minDurationNs clock invocations = some lines ∧
      printed minDurationNs clock others = some lines := by
  have start : State.initial.Agrees State.initial := ⟨rfl, .nil⟩
  exact printLines_of_sameLine clock (start.run agree leaves minDurationNs).submitted 0

/-! ## A slot that is used again -/

/-- A name of two characters and its end are written to a buffer. -/
def writeName (buffer : Buffer (n + 3)) : Buffer (n + 3) :=
  Fin.cons 115 (Fin.cons 104 (Fin.cons 0 fun i => buffer i.succ.succ.succ))

theorem leavesString_writeName : LeavesString (@writeName n) := by
  refine ⟨[115, 104], by decide, fun buffer => ⟨List.ofFn fun i => buffer i.succ.succ.succ, ?_⟩⟩
  rw [writeName, List.ofFn_cons, List.ofFn_cons, List.ofFn_cons]
  rfl

/-- What is left of an earlier sample. -/
def staleEvent : Event where
  pid := 99
  ppid := 98
  exitCode := 97
  durationNs := 96
  comm := fun _ => 95
  filename := fun _ => 94
  exitEvent := true

/-- A process that executes and exits, with the reserved memory. -/
def shortLife (reserved : Option Event) : List Invocation :=
  [⟨{ Context.plain 7 7 5 with comm := writeName, filename := writeName, reserved := reserved },
      .schedProcessExec⟩,
    ⟨{ Context.plain 7 7 9 with comm := writeName, filename := writeName, reserved := reserved },
      .schedProcessExit⟩]

/-- A clock at midnight. -/
def midnight : Clock where
  time := fun calls => calls
  localtime := fun _ => (0, 0)

/-- The same lines are printed whether the memory was clear or held another
sample. -/
theorem stale_bytes_never_show_shortLife :
    ∃ lines, printed 0 midnight (shortLife (Context.plain 0 0 0).reserved) = some lines ∧
      printed 0 midnight (shortLife (some staleEvent)) = some lines := by
  refine stale_bytes_never_show 0 midnight ?_ ?_
  · exact .cons ⟨rfl, .intro _ rfl⟩ (.cons ⟨rfl, .intro _ rfl⟩ .nil)
  · have leaves : ∀ ctx : Context, ctx.comm = writeName → ctx.filename = writeName →
        ctx.LeavesStrings := by
      intro ctx comm filename
      refine ⟨?_, ?_⟩
      · rw [comm]
        exact leavesString_writeName
      · rw [filename]
        exact leavesString_writeName
    intro invocation member
    rcases List.mem_pair.mp member with rfl | rfl
    · exact leaves _ rfl rfl
    · exact leaves _ rfl rfl

end Bootstrap
end EbpfHub
