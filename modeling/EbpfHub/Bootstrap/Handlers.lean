import EbpfHub.Foundations.BoundedMap
import EbpfHub.Foundations.Run
import Mathlib.Data.BitVec
import Mathlib.Data.Fintype.Pi

/-!
# The programs of bootstrap

`handle_exec` and `handle_exit` of `bootstrap.bpf.c`.  Their state is the map
`exec_start` and the samples that they submitted to the ring buffer.  What a
program observes when it is invoked is its context.
-/

namespace EbpfHub
namespace Bootstrap

open Foundations

/-- A `pid_t` of the source. -/
abbrev Pid := BitVec 32

/-- `TASK_COMM_LEN`. -/
abbrev taskCommLen : Nat := 16

/-- `MAX_FILENAME_LEN`. -/
abbrev maxFilenameLen : Nat := 127

/-- `max_entries` of the map `exec_start`. -/
abbrev execStartMaxEntries : Nat := 8192

/-- An array of characters. -/
abbrev Buffer (length : Nat) := Fin length → BitVec 8

/-- `struct event`. -/
structure Event where
  pid : Pid
  ppid : Pid
  exitCode : BitVec 32
  durationNs : BitVec 64
  comm : Buffer taskCommLen
  filename : Buffer maxFilenameLen
  exitEvent : Bool
  deriving DecidableEq

/-- What a program observes when it is invoked. -/
structure Context where
  /-- `bpf_get_current_pid_tgid()`. -/
  pidTgid : BitVec 64
  /-- `bpf_ktime_get_ns()`. -/
  ktime : BitVec 64
  /-- `task->real_parent->tgid`. -/
  parentTgid : Pid
  /-- `task->exit_code`. -/
  exitCode : BitVec 32
  /-- What `bpf_get_current_comm` makes of a buffer. -/
  comm : Buffer taskCommLen → Buffer taskCommLen
  /-- What `bpf_probe_read_str` of the file name makes of a buffer. -/
  filename : Buffer maxFilenameLen → Buffer maxFilenameLen
  /-- `bpf_ringbuf_reserve`: a sample with whatever its memory held before, or
  `none` when the reservation fails. -/
  reserved : Option Event

namespace Context

/-- The process, the high half of `pid_tgid`. -/
def pid (ctx : Context) : Pid := (ctx.pidTgid >>> 32).setWidth 32

/-- The thread, the low half of `pid_tgid`. -/
def tid (ctx : Context) : Pid := ctx.pidTgid.setWidth 32

/-- The context of an invocation that observes its thread and the clock.  The
names are empty, the exit code is zero, and the reserved memory is clear. -/
def plain (pid tid : Pid) (ktime : BitVec 64) : Context where
  pidTgid := pid.setWidth 64 <<< 32 ||| tid.setWidth 64
  ktime := ktime
  parentTgid := 0
  exitCode := 0
  comm := fun _ _ => 0
  filename := fun _ _ => 0
  reserved := some
    { pid := 0
      ppid := 0
      exitCode := 0
      durationNs := 0
      comm := fun _ => 0
      filename := fun _ => 0
      exitEvent := false }

@[simp] theorem plain_pid (pid tid : Pid) (ktime : BitVec 64) :
    (plain pid tid ktime).pid = pid := by
  ext i inRange
  have high : 32 + i < 64 := by omega
  have low : i < 64 := by omega
  simp [plain, Context.pid, high, low, BitVec.getLsbD_eq_getElem inRange]

@[simp] theorem plain_tid (pid tid : Pid) (ktime : BitVec 64) :
    (plain pid tid ktime).tid = tid := by
  ext i inRange
  simp [plain, Context.tid]

end Context

/-- The map `exec_start` and the submitted samples, the oldest first. -/
structure State where
  execStart : BoundedMap Pid (BitVec 64) (some execStartMaxEntries)
  submitted : List Event

namespace State

/-- The state after loading. -/
def initial : State where
  execStart := .empty
  submitted := []

/-- `bpf_map_update_elem(&exec_start, &pid, &ts, BPF_ANY)`, whose result is
ignored.  The map is preallocated, so that an update fails only for want of
room. -/
def updateExecStart (state : State) (pid : Pid) (ts : BitVec 64) : State :=
  match state.execStart.tryInsert pid ts with
  | none => state
  | some execStart => { state with execStart := execStart }

/-- `bpf_map_delete_elem(&exec_start, &pid)`. -/
def deleteExecStart (state : State) (pid : Pid) : State :=
  { state with execStart := state.execStart.erase pid }

/-- `bpf_ringbuf_reserve`, the filling of the sample, and
`bpf_ringbuf_submit`. -/
def submit (state : State) (reserved : Option Event) (fill : Event → Event) : State :=
  match reserved with
  | none => state
  | some e => { state with submitted := state.submitted ++ [fill e] }

end State

/-- The sample of `handle_exec`.  The exit code and the duration stay what the
memory held. -/
def execSample (ctx : Context) (e : Event) : Event :=
  { e with
    exitEvent := false
    pid := ctx.pid
    ppid := ctx.parentTgid
    comm := ctx.comm e.comm
    filename := ctx.filename e.filename }

/-- `handle_exec`. -/
def handleExec (minDurationNs : BitVec 64) (ctx : Context) (state : State) : State :=
  let state := state.updateExecStart ctx.pid ctx.ktime
  if minDurationNs ≠ 0 then state
  else state.submit ctx.reserved (execSample ctx)

/-- The sample of `handle_exit`.  The file name stays what the memory held. -/
def exitSample (ctx : Context) (durationNs : BitVec 64) (e : Event) : Event :=
  { e with
    exitEvent := true
    durationNs := durationNs
    pid := ctx.pid
    ppid := ctx.parentTgid
    exitCode := (ctx.exitCode.sshiftRight 8) &&& 0xff
    comm := ctx.comm e.comm }

/-- The end of `handle_exit`, once the duration is known. -/
def finishExit
    (minDurationNs : BitVec 64)
    (ctx : Context)
    (durationNs : BitVec 64)
    (state : State) : State :=
  let state := state.deleteExecStart ctx.pid
  if minDurationNs ≠ 0 ∧ durationNs < minDurationNs then state
  else state.submit ctx.reserved (exitSample ctx durationNs)

/-- `handle_exit`. -/
def handleExit (minDurationNs : BitVec 64) (ctx : Context) (state : State) : State :=
  if ctx.pid ≠ ctx.tid then state -- a thread other than the leader
  else
    match state.execStart.lookup ctx.pid with
    | some startTs => finishExit minDurationNs ctx (ctx.ktime - startTs) state
    | none =>
        if minDurationNs ≠ 0 then state
        else finishExit minDurationNs ctx 0 state

/-- The tracepoints. -/
inductive Tracepoint
  | schedProcessExec
  | schedProcessExit
  deriving DecidableEq

/-- One invocation of a program. -/
structure Invocation where
  ctx : Context
  tracepoint : Tracepoint

/-- Run the program of an invocation. -/
def step (minDurationNs : BitVec 64) (state : State) (invocation : Invocation) : State :=
  match invocation.tracepoint with
  | .schedProcessExec => handleExec minDurationNs invocation.ctx state
  | .schedProcessExit => handleExit minDurationNs invocation.ctx state

/-- Run the programs of a list of invocations from the initial state. -/
def runInvocations (minDurationNs : BitVec 64) (invocations : List Invocation) : State :=
  run (step minDurationNs) State.initial invocations

end Bootstrap
end EbpfHub
