import EbpfHub.Bootstrap.History
import EbpfHub.Bootstrap.Printer

/-!
# A session of bootstrap

`main` of `bootstrap.c` polls the ring buffer while the programs go on running
and signals arrive, in any order.  What the terminal shows is the history of the
processes, as far as it has been polled.
-/

namespace EbpfHub
namespace Bootstrap

open Foundations

/-! ## The part of `main` before the loop -/

/-- `env`, of which the argument of the programs is taken. -/
structure Env where
  minDurationMs : BitVec 64

/-- `env.min_duration_ms * 1000000ULL`. -/
def Env.minDurationNs (env : Env) : BitVec 64 := env.minDurationMs * 1000000

/-- The static object, which nothing in the file assigns. -/
def staticEnv : Env where
  minDurationMs := 0

/-- What the calls before the loop return. -/
structure Setup where
  /-- `bootstrap_bpf__open` gives an object. -/
  opened : Bool
  /-- `bootstrap_bpf__load`. -/
  load : Int
  /-- `bootstrap_bpf__attach`. -/
  attach : Int
  /-- `ring_buffer__new` gives a ring buffer. -/
  ring : Bool

/-- `err < 0 ? -err : 0`. -/
def exitStatus (err : Int) : Int := if err < 0 then -err else 0

/-- The part of `main` before the loop: the status and the message with which it
ends there, or the value of `err` with which the loop begins. -/
def setUp (setup : Setup) : Except (Int × List Char) Int :=
  if setup.opened = false then
    .error (1, "Failed to open and load BPF skeleton".toList)
  else if setup.load ≠ 0 then
    .error (exitStatus setup.load, "Failed to laod and verify BPF skeleton\n".toList)
  else if setup.attach ≠ 0 then
    .error (exitStatus setup.attach, "Failed to attach BPF skeletion\n".toList)
  else if setup.ring = false then
    .error (exitStatus (-1), "Failed to create ring buffer\n".toList)
  else .ok setup.attach

/-! ## The loop -/

/-- `EINTR`. -/
abbrev eintr : Nat := 4

/-- What `ring_buffer__poll` does: it hands samples that wait to `handle_event`,
the oldest first and at most so many of them, or it fails. -/
inductive PollAnswer
  | consumed (count : Nat)
  | failed (errno : Nat)

/-- Where the loop is. -/
inductive Phase
  /-- Before the test of `exiting`. -/
  | testing (err : Int)
  /-- Before the call of `ring_buffer__poll`. -/
  | polling
  /-- After the loop. -/
  | ended (err : Int)
  deriving DecidableEq

/-- What can happen in a session. -/
inductive Action
  /-- A tracepoint is hit. -/
  | invoke (invocation : Invocation)
  /-- The test of `exiting`. -/
  | test
  /-- The call of `ring_buffer__poll`. -/
  | poll (answer : PollAnswer)
  /-- `SIGINT` or `SIGTERM`. -/
  | signal

/-- The programs, the flag `exiting`, the place in the loop, the number of calls
of `handle_event`, and the lines on the terminal, which are `none` once a string
without an end has been read. -/
structure Session where
  state : State
  exiting : Bool
  phase : Phase
  calls : Nat
  lines : Option (List (List Char))

/-- The line above the events. -/
def heading : List Char :=
  padded 8 "TIME".toList ++ ' ' :: padded 5 "EVENT".toList ++ ' ' :: padded 16 "COMM".toList ++
    ' ' :: padded 7 "PID".toList ++ ' ' :: padded 7 "PPID".toList ++
    ' ' :: "FILENAME/EXIT CODE".toList ++ ['\n']

/-- The line of an error of `ring_buffer__poll`. -/
def pollError (err : Int) : List Char :=
  "Error polling perf buffer: ".toList ++ decimal err ++ ['\n']

namespace Session

/-- The session when the loop begins. -/
def start (err : Int) : Session where
  state := .initial
  exiting := false
  phase := .testing err
  calls := 0
  lines := some [heading]

/-- The call of `ring_buffer__poll` and the tests of its result. -/
def poll (clock : Clock) (answer : PollAnswer) (session : Session) : Session :=
  match answer with
  | .consumed count =>
      let samples := (session.state.submitted.drop session.calls).take count
      { session with
        phase := .testing samples.length
        calls := session.calls + samples.length
        lines := session.lines.bind fun lines =>
          (printLines clock session.calls samples).map (lines ++ ·) }
  | .failed errno =>
      let err : Int := -errno
      if err = -eintr then { session with phase := .ended 0 }
      else if err < 0 then
        { session with
          phase := .ended err
          lines := session.lines.map (· ++ [pollError err]) }
      else { session with phase := .testing err }

/-- One action.  A test or a poll takes place only where the loop is at it. -/
def step (env : Env) (clock : Clock) (session : Session) (action : Action) : Session :=
  match action, session.phase with
  | .invoke invocation, _ =>
      { session with state := Bootstrap.step env.minDurationNs session.state invocation }
  | .signal, _ => { session with exiting := true }
  | .test, .testing err =>
      { session with phase := if session.exiting then .ended err else .polling }
  | .poll answer, .polling => session.poll clock answer
  | _, _ => session

/-- The status with which `main` returns, once the loop has ended. -/
def status (session : Session) : Option Int :=
  match session.phase with
  | .ended err => some (exitStatus err)
  | _ => none

end Session

/-- `main`: the status and the message with which it fails before the loop, or
the session that the actions make of the loop. -/
def main
    (env : Env)
    (setup : Setup)
    (clock : Clock)
    (actions : List Action) : Except (Int × List Char) Session :=
  (setUp setup).map fun err => run (Session.step env clock) (.start err) actions

/-! ## What the history owes the terminal -/

/-- The invocations among the actions. -/
def invocations (actions : List Action) : List Invocation :=
  actions.filterMap fun action =>
    match action with
    | .invoke invocation => some invocation
    | _ => none

/-- The time of the latest exec of every process that has executed since its
last leader exit. -/
abbrev Starts := Pid → Option (BitVec 64)

/-- What an invocation does to them. -/
def Starts.after (starts : Starts) (invocation : Invocation) : Starts :=
  match invocation.tracepoint with
  | .schedProcessExec => Function.update starts invocation.ctx.pid (some invocation.ctx.ktime)
  | .schedProcessExit =>
      if invocation.ctx.pid = invocation.ctx.tid then
        Function.update starts invocation.ctx.pid none
      else starts

/-- The text that a function leaves in a clear buffer. -/
def textOf (fill : Buffer length → Buffer length) : List Char :=
  (cString (fill fun _ => 0)).getD []

/-- How long the process has lived at an exit, and `none` when that is not to be
reported. -/
def reportedLifetime
    (minDurationNs : BitVec 64)
    (start : Option (BitVec 64))
    (now : BitVec 64) : Option (BitVec 64) :=
  match start with
  | some start => if minDurationNs ≤ now - start then some (now - start) else none
  | none => if minDurationNs = 0 then some 0 else none

/-- The line that an invocation owes the terminal, but for its time. -/
def Invocation.owed
    (invocation : Invocation)
    (minDurationNs : BitVec 64)
    (starts : Starts) : Option (List Char → List Char) :=
  let ctx := invocation.ctx
  if ctx.reserved = none then none
  else
    match invocation.tracepoint with
    | .schedProcessExec =>
        if minDurationNs = 0 then
          some fun ts => execLine ts (textOf ctx.comm) (textOf ctx.filename) ctx.pid ctx.parentTgid
        else none
    | .schedProcessExit =>
        if ctx.pid = ctx.tid then
          (reportedLifetime minDurationNs (starts ctx.pid) ctx.ktime).map fun durationNs ts =>
            exitLine ts (textOf ctx.comm) ctx.pid ctx.parentTgid
              ((ctx.exitCode.sshiftRight 8) &&& 0xff) durationNs
        else none

/-- The lines that a history owes the terminal. -/
def owedLines
    (minDurationNs : BitVec 64) : Starts → List Invocation → List (List Char → List Char)
  | _, [] => []
  | starts, invocation :: rest =>
      (invocation.owed minDurationNs starts).toList ++
        owedLines minDurationNs (starts.after invocation) rest

/-- The lines with their times. -/
def stamped (clock : Clock) : Nat → List (List Char → List Char) → List (List Char)
  | _, [] => []
  | calls, line :: lines =>
      line (clock.strftime (clock.time calls)) :: stamped clock (calls + 1) lines

/-- The lines that a history owes the terminal from the start. -/
def historyLines
    (minDurationNs : BitVec 64)
    (history : List Invocation) : List (List Char → List Char) :=
  owedLines minDurationNs (fun _ => none) history

/-- The line that the loop ends with, when it fails. -/
def Phase.message : Phase → List (List Char)
  | .ended err => if err < 0 then [pollError err] else []
  | _ => []

/-! ## The programs and their history -/

section History

variable {minDurationNs : BitVec 64} {history : List Invocation} {invocation : Invocation}

/-- The map `exec_start` follows the history. -/
theorem step_lookup
    {state : State}
    (records : Records state history)
    (fits : Fits (history ++ [invocation])) :
    (step minDurationNs state invocation).execStart.lookup =
      Starts.after state.execStart.lookup invocation := by
  obtain ⟨ctx, tracepoint⟩ := invocation
  cases tracepoint with
  | schedProcessExec =>
      simp only [step, handleExec_execStart, Starts.after]
      exact State.updateExecStart_lookup (records.hasRoom fits rfl) ctx.ktime
  | schedProcessExit =>
      simp only [step, Starts.after]
      split
      · next leader => exact handleExit_execStart_lookup minDurationNs leader state
      · next follower => rw [handleExit_of_ne minDurationNs follower]

theorem Fits.front
    (fits : Fits (history ++ [invocation])) :
    Fits history :=
  fun before isPrefix => fits before (isPrefix.trans (List.prefix_append _ _))

theorem lookup_runInvocations
    (minDurationNs : BitVec 64)
    (history : List Invocation)
    (fits : Fits history) :
    (runInvocations minDurationNs history).execStart.lookup =
      history.foldl Starts.after fun _ => none := by
  induction history using List.reverseRecOn with
  | nil =>
      funext pid
      simp [runInvocations, State.initial]
  | append_singleton history invocation inductionHypothesis =>
      have records := records_runInvocations minDurationNs history fits.front
      rw [runInvocations, run_append, List.foldl_append, ← inductionHypothesis fits.front]
      exact step_lookup records fits

theorem owedLines_append
    (starts : Starts)
    (first second : List Invocation) :
    owedLines minDurationNs starts (first ++ second) =
      owedLines minDurationNs starts first ++
        owedLines minDurationNs (first.foldl Starts.after starts) second := by
  induction first generalizing starts with
  | nil => rfl
  | cons invocation first inductionHypothesis =>
      simp only [List.cons_append, owedLines, inductionHypothesis, List.foldl_cons,
        List.append_assoc]

end History

/-! ## The samples and their lines -/

/-- The sample prints the line. -/
def Shows (e : Event) (line : List Char → List Char) : Prop :=
  ∀ ts, handleEvent ts e = some (line ts)

theorem LeavesString.cString_eq
    {fill : Buffer length → Buffer length}
    (leaves : LeavesString fill)
    (buffer : Buffer length) :
    Bootstrap.cString (fill buffer) = some (textOf fill) := by
  obtain ⟨text, left⟩ := leaves.cString
  rw [left, textOf, left, Option.getD_some]

section Samples

variable {ctx : Context} (leaves : ctx.LeavesStrings)

include leaves

theorem shows_execSample
    (e : Event) :
    Shows (execSample ctx e) fun ts =>
      execLine ts (textOf ctx.comm) (textOf ctx.filename) ctx.pid ctx.parentTgid := by
  intro ts
  have exec : ¬(execSample ctx e).exitEvent = true := Bool.false_ne_true
  rw [handleEvent, if_neg exec]
  dsimp only [execSample]
  rw [leaves.comm.cString_eq, leaves.filename.cString_eq]
  rfl

theorem shows_exitSample
    (durationNs : BitVec 64)
    (e : Event) :
    Shows (exitSample ctx durationNs e) fun ts =>
      exitLine ts (textOf ctx.comm) ctx.pid ctx.parentTgid
        ((ctx.exitCode.sshiftRight 8) &&& 0xff) durationNs := by
  intro ts
  have exit : (exitSample ctx durationNs e).exitEvent = true := rfl
  rw [handleEvent, if_pos exit]
  dsimp only [exitSample]
  rw [leaves.comm.cString_eq]
  rfl

end Samples

/-- A leader exit submits a sample of the lifetime to be reported. -/
theorem handleExit_submitted_reportedLifetime
    (minDurationNs : BitVec 64)
    {ctx : Context}
    (leader : ctx.pid = ctx.tid)
    (state : State) :
    (handleExit minDurationNs ctx state).submitted =
      state.submitted ++
        ((reportedLifetime minDurationNs (state.execStart.lookup ctx.pid) ctx.ktime).bind
          fun durationNs => ctx.reserved.map (exitSample ctx durationNs)).toList := by
  rw [handleExit_submitted minDurationNs leader]
  congr 1
  cases state.execStart.lookup ctx.pid with
  | none =>
      simp only [reportedLifetime]
      split <;> rfl
  | some start =>
      simp only [reportedLifetime]
      split <;> rfl

/-- A program submits the sample of the line that its invocation owes. -/
theorem step_shows
    (minDurationNs : BitVec 64)
    (state : State)
    {invocation : Invocation}
    (leaves : invocation.ctx.LeavesStrings) :
    ∃ emitted,
      (step minDurationNs state invocation).submitted = state.submitted ++ emitted ∧
        List.Forall₂ Shows emitted
          (invocation.owed minDurationNs state.execStart.lookup).toList := by
  obtain ⟨ctx, tracepoint⟩ := invocation
  cases tracepoint with
  | schedProcessExec =>
      refine ⟨_, handleExec_submitted minDurationNs ctx state, ?_⟩
      simp only [Invocation.owed]
      cases ctx.reserved with
      | none =>
          rw [if_pos rfl, Option.map_none, Option.toList_none, ite_self]
          exact .nil
      | some e =>
          rw [if_neg (Option.some_ne_none e)]
          split
          · exact .cons (shows_execSample leaves e) .nil
          · exact .nil
  | schedProcessExit =>
      simp only [Invocation.owed]
      by_cases leader : ctx.pid = ctx.tid
      · refine ⟨_, handleExit_submitted_reportedLifetime minDurationNs leader state, ?_⟩
        rw [if_pos leader]
        cases reportedLifetime minDurationNs (state.execStart.lookup ctx.pid) ctx.ktime with
        | none => simp
        | some durationNs =>
            cases ctx.reserved with
            | none => exact .nil
            | some e => exact .cons (shows_exitSample leaves durationNs e) .nil
      · refine ⟨[], ?_, ?_⟩
        · rw [List.append_nil]
          exact congrArg State.submitted (handleExit_of_ne minDurationNs leader state)
        · rw [if_neg leader, ite_self]
          exact .nil

/-- The samples of a run are those of the lines that its history owes. -/
theorem runInvocations_shows
    (minDurationNs : BitVec 64)
    (history : List Invocation)
    (fits : Fits history)
    (leaves : ∀ invocation ∈ history, invocation.ctx.LeavesStrings) :
    List.Forall₂ Shows (runInvocations minDurationNs history).submitted
      (historyLines minDurationNs history) := by
  induction history using List.reverseRecOn with
  | nil => exact .nil
  | append_singleton history invocation inductionHypothesis =>
      obtain ⟨before, last⟩ := List.forall_mem_append.mp leaves
      obtain ⟨emitted, submitted, shows⟩ := step_shows minDurationNs
        (runInvocations minDurationNs history) (last invocation (List.mem_singleton_self _))
      rw [lookup_runInvocations minDurationNs history fits.front] at shows
      have next : (runInvocations minDurationNs (history ++ [invocation])).submitted =
          (runInvocations minDurationNs history).submitted ++ emitted := by
        rw [← submitted, runInvocations, run_append]
        rfl
      rw [next, historyLines, owedLines_append]
      refine List.rel_append (inductionHypothesis fits.front before) ?_
      rw [owedLines, owedLines, List.append_nil]
      exact shows

/-- `handle_event` prints the lines of the samples with their times. -/
theorem printLines_of_shows
    (clock : Clock)
    {samples : List Event}
    {lines : List (List Char → List Char)}
    (shows : List.Forall₂ Shows samples lines)
    (calls : Nat) :
    printLines clock calls samples = some (stamped clock calls lines) := by
  induction shows generalizing calls with
  | nil => rfl
  | cons head _ inductionHypothesis =>
      rw [printLines, head, Option.bind_some, inductionHypothesis, Option.map_some]
      rfl

theorem stamped_append
    (clock : Clock)
    (first second : List (List Char → List Char))
    (calls : Nat) :
    stamped clock calls (first ++ second) =
      stamped clock calls first ++ stamped clock (calls + first.length) second := by
  induction first generalizing calls with
  | nil => rfl
  | cons line first inductionHypothesis =>
      rw [List.cons_append, stamped, inductionHypothesis, stamped, List.length_cons,
        List.cons_append, Nat.add_right_comm, Nat.add_assoc]

/-! ## The session -/

/-- The session has shown the lines of the history as far as it has been
polled. -/
structure Session.Tells
    (env : Env)
    (clock : Clock)
    (history : List Invocation)
    (session : Session) : Prop where
  state : session.state = runInvocations env.minDurationNs history
  calls : session.calls ≤ (historyLines env.minDurationNs history).length
  lines : session.lines = some (heading ::
    stamped clock 0 ((historyLines env.minDurationNs history).take session.calls) ++
      session.phase.message)
  /-- Only an error that ends the loop is one. -/
  nonneg : ∀ err, session.phase = .testing err → 0 ≤ err

namespace Session.Tells

variable {env : Env} {clock : Clock} {history : List Invocation} {session : Session}

theorem start (env : Env) (clock : Clock) : (Session.start 0).Tells env clock [] := by
  refine ⟨rfl, Nat.le_refl 0, rfl, ?_⟩
  rintro err phase
  obtain rfl := Phase.testing.inj phase
  exact Int.le_refl 0

/-- A program appends to what is owed. -/
theorem invoke
    (tells : session.Tells env clock history)
    (invocation : Invocation) :
    (session.step env clock (.invoke invocation)).Tells env clock (history ++ [invocation]) := by
  have owed : historyLines env.minDurationNs (history ++ [invocation]) =
      historyLines env.minDurationNs history ++ _ := owedLines_append _ _ _
  refine ⟨?_, ?_, ?_, tells.nonneg⟩
  · simp only [step, tells.state]
    rw [runInvocations, runInvocations, run_append]
    rfl
  · rw [owed, List.length_append]
    exact Nat.le_add_right_of_le tells.calls
  · rw [owed]
    simp only [step]
    rw [List.take_append_of_le_length tells.calls]
    exact tells.lines

/-- The test of `exiting` shows nothing. -/
theorem test
    (tells : session.Tells env clock history) :
    (session.step env clock .test).Tells env clock history := by
  cases phase : session.phase with
  | testing err =>
      have lines := tells.lines
      have nonneg := tells.nonneg err phase
      rw [phase] at lines
      simp only [step, phase]
      refine ⟨tells.state, tells.calls, ?_, ?_⟩
      · cases session.exiting with
        | false => exact lines
        | true =>
            simp only [if_true, Phase.message, if_neg (Int.not_lt.mpr nonneg)]
            exact lines
      · cases session.exiting with
        | false => exact fun _ polling => by cases polling
        | true => exact fun _ ended => by cases ended
  | polling => simpa only [step, phase] using tells
  | ended err => simpa only [step, phase] using tells

/-- A poll shows the lines that are owed next. -/
theorem poll
    (tells : session.Tells env clock history)
    (fits : Fits history)
    (leaves : ∀ invocation ∈ history, invocation.ctx.LeavesStrings)
    (polling : session.phase = .polling)
    (answer : PollAnswer) :
    (session.poll clock answer).Tells env clock history := by
  have lines : session.lines = some (heading ::
      stamped clock 0 ((historyLines env.minDurationNs history).take session.calls)) := by
    rw [tells.lines, polling]
    exact congrArg some (List.append_nil _)
  cases answer with
  | consumed count =>
      let owed := ((historyLines env.minDurationNs history).drop session.calls).take count
      have shows : List.Forall₂ Shows ((session.state.submitted.drop session.calls).take count)
          owed := by
        rw [tells.state]
        exact List.forall₂_take _ (List.forall₂_drop _
          (runInvocations_shows env.minDurationNs history fits leaves))
      have front : (historyLines env.minDurationNs history).take (session.calls + owed.length) =
          (historyLines env.minDurationNs history).take session.calls ++ owed := by
        rw [List.take_add]
        refine congrArg _ (List.take_eq_take_iff.mpr ?_)
        rw [List.length_take]
        omega
      have known : ((historyLines env.minDurationNs history).take session.calls).length =
          session.calls := List.length_take_of_le tells.calls
      have within : owed.length ≤ (historyLines env.minDurationNs history).length -
          session.calls := by
        rw [← List.length_drop]
        exact List.length_take_le' ..
      refine ⟨tells.state, ?_, ?_, ?_⟩
      · simp only [Session.poll, shows.length_eq]
        have calls := tells.calls
        omega
      · simp only [Session.poll, shows.length_eq, lines, Option.bind_some,
          printLines_of_shows clock shows, Option.map_some, front, stamped_append, known,
          Nat.zero_add, Phase.message, List.append_nil, List.cons_append]
      · rintro err phase
        obtain rfl := Phase.testing.inj phase
        exact Int.natCast_nonneg _
  | failed errno =>
      simp only [Session.poll]
      split
      · refine ⟨tells.state, tells.calls, ?_, fun _ ended => by cases ended⟩
        simp only [lines, Phase.message, lt_irrefl, if_false, List.append_nil]
      · split
        · next negative =>
            refine ⟨tells.state, tells.calls, ?_, fun _ ended => by cases ended⟩
            simp only [lines, Option.map_some, Phase.message, if_pos negative]
        · next nonneg =>
            refine ⟨tells.state, tells.calls, ?_, ?_⟩
            · rw [lines]
              exact congrArg some (List.append_nil _).symm
            · rintro err phase
              obtain rfl := Phase.testing.inj phase
              exact Int.not_lt.mp nonneg

/-- An action shows nothing but lines that are owed. -/
theorem step
    (tells : session.Tells env clock history)
    (action : Action)
    (fits : Fits (history ++ invocations [action]))
    (leaves : ∀ invocation ∈ history ++ invocations [action],
      invocation.ctx.LeavesStrings) :
    (session.step env clock action).Tells env clock (history ++ invocations [action]) := by
  cases action with
  | invoke invocation => exact tells.invoke invocation
  | test =>
      rw [invocations, List.filterMap_cons, List.filterMap_nil, List.append_nil]
      exact tells.test
  | signal =>
      rw [invocations, List.filterMap_cons, List.filterMap_nil, List.append_nil]
      exact ⟨tells.state, tells.calls, tells.lines, tells.nonneg⟩
  | poll answer =>
      rw [invocations, List.filterMap_cons, List.filterMap_nil, List.append_nil] at fits leaves ⊢
      cases phase : session.phase with
      | polling =>
          simp only [Session.step, phase]
          exact tells.poll fits leaves phase answer
      | testing err => simpa only [Session.step, phase] using tells
      | ended err => simpa only [Session.step, phase] using tells

/-- Actions show nothing but lines that are owed. -/
theorem run
    (actions : List Action)
    (fits : Fits (invocations actions))
    (leaves : ∀ invocation ∈ invocations actions, invocation.ctx.LeavesStrings) :
    (run (Session.step env clock) (Session.start 0) actions).Tells env clock
      (invocations actions) := by
  induction actions using List.reverseRecOn with
  | nil => exact .start env clock
  | append_singleton actions action inductionHypothesis =>
      rw [invocations, List.filterMap_append] at fits leaves ⊢
      rw [run_append]
      refine (inductionHypothesis ?_ ?_).step action fits leaves
      · exact fun before isPrefix => fits before (isPrefix.trans (List.prefix_append _ _))
      · exact fun invocation member => leaves invocation (List.mem_append_left _ member)

end Session.Tells

/-- The loop begins without an error. -/
theorem setUp_eq_ok
    {setup : Setup}
    {err : Int}
    (succeeds : setUp setup = .ok err) :
    err = 0 := by
  unfold setUp at succeeds
  split at succeeds
  · cases succeeds
  split at succeeds
  · cases succeeds
  split at succeeds
  · cases succeeds
  next attached =>
    split at succeeds
    · cases succeeds
    · cases succeeds
      exact not_not.mp attached

section Main

variable {env : Env} {setup : Setup} {clock : Clock} {actions : List Action} {session : Session}

theorem main_eq_ok
    (runs : main env setup clock actions = .ok session) :
    setUp setup = .ok 0 ∧
      session = run (Session.step env clock) (Session.start 0) actions := by
  unfold main at runs
  cases prepared : setUp setup with
  | error failure =>
      rw [prepared] at runs
      cases runs
  | ok err =>
      obtain rfl := setUp_eq_ok prepared
      rw [prepared] at runs
      cases runs
      exact ⟨rfl, rfl⟩

theorem main_append
    (runs : main env setup clock actions = .ok session)
    (more : List Action) :
    main env setup clock (actions ++ more) =
      .ok (run (Session.step env clock) session more) := by
  obtain ⟨prepared, rfl⟩ := main_eq_ok runs
  rw [main, prepared, ← run_append]
  rfl

end Main

/-- Whatever the order in which the programs are invoked, the ring buffer is
polled and signals arrive: the terminal shows the heading, then the lines that
the history of the processes owes it, in their order and each once, as far as
they have been polled, and last the line of an error with which the loop has
ended.  A poll shows as many more of them as it consumes. -/
theorem main_shows_history
    (env : Env)
    (setup : Setup)
    (clock : Clock)
    (actions : List Action)
    (session : Session)
    (runs : main env setup clock actions = .ok session)
    (fits : Fits (invocations actions))
    (leaves : ∀ invocation ∈ invocations actions, invocation.ctx.LeavesStrings) :
    let owed := historyLines env.minDurationNs (invocations actions)
    session.state = runInvocations env.minDurationNs (invocations actions) ∧
      session.calls ≤ owed.length ∧
      session.lines = some
        (heading :: stamped clock 0 (owed.take session.calls) ++ session.phase.message) ∧
      (session.phase = .polling → ∀ count, ∃ next,
        main env setup clock (actions ++ [.poll (.consumed count)]) = .ok next ∧
          next.calls = min (session.calls + count) owed.length ∧
          next.lines = some
            (heading :: stamped clock 0 (owed.take (session.calls + count)))) := by
  intro owed
  have tells : session.Tells env clock (invocations actions) := by
    obtain ⟨-, rfl⟩ := main_eq_ok runs
    exact .run actions fits leaves
  refine ⟨tells.state, tells.calls, tells.lines, fun polling count => ?_⟩
  refine ⟨session.poll clock (.consumed count), ?_, ?_⟩
  · rw [main_append runs, run_cons, run_nil]
    simp only [Session.step, polling]
  · have next := tells.poll fits leaves polling (.consumed count)
    have shows := (runInvocations_shows env.minDurationNs _ fits leaves).length_eq
    have calls : (session.poll clock (.consumed count)).calls =
        min (session.calls + count) owed.length := by
      have within : session.calls ≤ owed.length := tells.calls
      change _ = owed.length at shows
      simp only [Session.poll, tells.state, List.length_take, List.length_drop, shows]
      omega
    refine ⟨calls, ?_⟩
    rw [next.lines, calls]
    have same : owed.take (min (session.calls + count) owed.length) =
        owed.take (session.calls + count) := by
      rw [List.take_eq_take_iff, Nat.min_assoc, Nat.min_self]
    exact congrArg some ((List.append_nil _).trans (by rw [← same]))

/-- Two processes run for a while, and a poll comes between their events. -/
def twoProcesses : List Action :=
  let ctx (pid : Pid) (ktime : BitVec 64) : Context :=
    { Context.plain pid pid ktime with comm := writeName, filename := writeName }
  [.test, .invoke ⟨ctx 7 1000000, .schedProcessExec⟩, .invoke ⟨ctx 8 2000000, .schedProcessExec⟩,
    .poll (.consumed 1), .test, .invoke ⟨ctx 7 9000000, .schedProcessExit⟩, .signal]

/-- The calls before the loop succeed. -/
def ready : Setup where
  opened := true
  load := 0
  attach := 0
  ring := true

/-- One line has been shown, and the next poll is to show the rest. -/
def twoProcessesSession : Session :=
  run (Session.step staticEnv midnight) (Session.start 0) twoProcesses

theorem main_shows_history_twoProcesses :
    ∃ next,
      main staticEnv ready midnight (twoProcesses ++ [.poll (.consumed 5)]) = .ok next ∧
        next.calls = min (twoProcessesSession.calls + 5)
          (historyLines staticEnv.minDurationNs (invocations twoProcesses)).length ∧
        next.lines = some (heading :: stamped midnight 0
          ((historyLines staticEnv.minDurationNs (invocations twoProcesses)).take
            (twoProcessesSession.calls + 5))) := by
  refine (main_shows_history staticEnv ready midnight twoProcesses twoProcessesSession rfl
    (fits_of_length_le (by decide)) ?_).2.2.2 rfl 5
  have leaves : ∀ ctx : Context,
      Context.LeavesStrings { ctx with comm := writeName, filename := writeName } :=
    fun _ => ⟨leavesString_writeName, leavesString_writeName⟩
  intro invocation member
  simp only [twoProcesses, invocations, List.filterMap_cons, List.filterMap_nil, List.mem_cons,
    List.not_mem_nil, or_false] at member
  rcases member with rfl | rfl | rfl
  · exact leaves _
  · exact leaves _
  · exact leaves _

end Bootstrap
end EbpfHub
