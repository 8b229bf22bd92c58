import EbpfHub.Bootstrap.History

/-!
# Exits of processes and exits of threads

A process is over when its last thread has exited.  The kernel admits the exits
of its threads in every order; `handle_exit` sees one thread at a time.
-/

namespace EbpfHub
namespace Bootstrap

open Foundations

/-! ## The life of a process -/

/-- The threads of every process. -/
abbrev Threads := Pid → Finset Pid

/-- What happens to processes.  No program of bootstrap runs on the creation of
a process or a thread. -/
inductive Happening
  | fork (pid : Pid)
  | clone (pid tid : Pid)
  | exec (ctx : Context)
  | exit (ctx : Context)

/-- The happenings that the kernel admits.  A new process has one thread, its
leader; a later thread has another identifier.  An exec leaves the leader
only. -/
inductive Allows : Threads → Happening → Threads → Prop
  | fork {threads : Threads} {pid : Pid} :
      threads pid = ∅ →
      Allows threads (.fork pid) (Function.update threads pid {pid})
  | clone {threads : Threads} {pid tid : Pid} :
      (threads pid).Nonempty →
      tid ∉ threads pid →
      tid ≠ pid →
      Allows threads (.clone pid tid) (Function.update threads pid (insert tid (threads pid)))
  | exec {threads : Threads} {ctx : Context} :
      (threads ctx.pid).Nonempty →
      Allows threads (.exec ctx) (Function.update threads ctx.pid {ctx.pid})
  | exit {threads : Threads} {ctx : Context} :
      ctx.tid ∈ threads ctx.pid →
      Allows threads (.exit ctx)
        (Function.update threads ctx.pid ((threads ctx.pid).erase ctx.tid))

/-- The invocation that a happening causes. -/
def Happening.invocation : Happening → Option Invocation
  | .fork _ => none
  | .clone _ _ => none
  | .exec ctx => some ⟨ctx, .schedProcessExec⟩
  | .exit ctx => some ⟨ctx, .schedProcessExit⟩

/-- The reservation of a happening succeeds. -/
def Happening.Reserves : Happening → Prop
  | .exec ctx => ctx.reserved.isSome
  | .exit ctx => ctx.reserved.isSome
  | _ => True

/-- The happening neither creates the process nor is an exec of it. -/
def Happening.Continues (pid : Pid) : Happening → Prop
  | .fork other => other ≠ pid
  | .exec ctx => ctx.pid ≠ pid
  | _ => True

/-- A process from its last exec to the exit of its last thread, amid whatever
else happens. -/
structure Life (pid : Pid) where
  /-- The threads when bootstrap is attached, after the exec, and before the
  last exit. -/
  initial : Threads
  born : Threads
  dying : Threads
  /-- What happens before the last exec. -/
  before : List Happening
  exec : Context
  /-- What happens before the last exit. -/
  during : List Happening
  last : Context
  youth : Trace Allows initial (before ++ [.exec exec]) born
  age : Trace Allows born during dying
  exec_pid : exec.pid = pid
  last_pid : last.pid = pid
  continues : ∀ happening ∈ during, happening.Continues pid
  /-- The last exit is that of the only thread left. -/
  alone : dying pid = {last.tid}

/-- The state after the happenings when no minimum duration is asked for. -/
def stateAfter (state : State) (happenings : List Happening) : State :=
  run (step 0) state (happenings.filterMap Happening.invocation)

/-- The exit events of a process among samples. -/
def exitEvents (pid : Pid) (samples : List Event) : List Event :=
  samples.filter fun e => e.exitEvent && e.pid = pid

namespace Life

variable {pid : Pid} (life : Life pid)

/-- The state after the last exec. -/
def atExec : State := stateAfter .initial (life.before ++ [.exec life.exec])

/-- The state before the last exit. -/
def beforeEnd : State := stateAfter life.atExec life.during

/-- The state after the last exit. -/
def atEnd : State := stateAfter life.beforeEnd [.exit life.last]

/-- The update of `exec_start` at the last exec succeeds. -/
def Remembered : Prop := (stateAfter .initial life.before).execStart.HasRoom pid

instance : Decidable life.Remembered :=
  inferInstanceAs (Decidable (BoundedMap.HasRoom _ _))

/-- Since the last exec the process has had one exit event, emitted by the exit
of its last thread, with the time from the exec to that exit. -/
def ReportedAtEnd : Prop :=
  exitEvents pid life.beforeEnd.submitted = exitEvents pid life.atExec.submitted ∧
    ∃ e, exitEvents pid life.atEnd.submitted =
        exitEvents pid life.atExec.submitted ++ [e] ∧
      e.durationNs = life.last.ktime - life.exec.ktime

end Life

/-! ## What a step does to one process -/

@[simp] theorem exitEvents_append
    (pid : Pid)
    (first second : List Event) :
    exitEvents pid (first ++ second) = exitEvents pid first ++ exitEvents pid second :=
  List.filter_append ..

/-- An exec submits no exit event. -/
theorem handleExec_exitEvents
    (pid : Pid)
    (minDurationNs : BitVec 64)
    (ctx : Context)
    (state : State) :
    exitEvents pid (handleExec minDurationNs ctx state).submitted =
      exitEvents pid state.submitted := by
  have noExit : ∀ reserved : Option Event,
      exitEvents pid (reserved.map (execSample ctx)).toList = [] := by
    intro reserved
    cases reserved with
    | none => rfl
    | some e => simp [exitEvents, execSample]
  rw [handleExec_submitted, exitEvents_append]
  split
  · rw [noExit, List.append_nil]
  · simp [exitEvents]

theorem State.updateExecStart_lookup_of_ne
    {state : State}
    {pid other : Pid}
    (different : pid ≠ other)
    (ts : BitVec 64) :
    (state.updateExecStart other ts).execStart.lookup pid = state.execStart.lookup pid := by
  unfold updateExecStart
  split
  · rfl
  · next success => rw [BoundedMap.lookup_of_tryInsert success, Function.update_of_ne different]

/-- The sample of an exit is an exit event of its process. -/
theorem exitEvents_exitSample
    (pid : Pid)
    (ctx : Context)
    (durationNs : BitVec 64)
    (e : Event) :
    exitEvents pid [exitSample ctx durationNs e] =
      if ctx.pid = pid then [exitSample ctx durationNs e] else [] := by
  simp [exitEvents, exitSample, List.filter_cons]

/-- Invocations in another process leave the entry and the exit events of the
process alone. -/
theorem step_of_ne
    (invocation : Invocation)
    {pid : Pid}
    (different : invocation.ctx.pid ≠ pid)
    (minDurationNs : BitVec 64)
    (state : State) :
    (step minDurationNs state invocation).execStart.lookup pid = state.execStart.lookup pid ∧
      exitEvents pid (step minDurationNs state invocation).submitted =
        exitEvents pid state.submitted := by
  obtain ⟨ctx, tracepoint⟩ := invocation
  cases tracepoint with
  | schedProcessExec =>
      refine ⟨?_, handleExec_exitEvents pid minDurationNs ctx state⟩
      simp only [step, handleExec_execStart]
      exact State.updateExecStart_lookup_of_ne (Ne.symm different) ctx.ktime
  | schedProcessExit =>
      by_cases leader : ctx.pid = ctx.tid
      · have foreign : ∀ durationNs (reserved : Option Event),
            exitEvents pid (reserved.map (exitSample ctx durationNs)).toList = [] := by
          intro durationNs reserved
          cases reserved with
          | none => rfl
          | some e => exact (exitEvents_exitSample ..).trans (if_neg different)
        constructor
        · simp only [step, handleExit_execStart_lookup _ leader]
          exact Function.update_of_ne (Ne.symm different) _ _
        · simp only [step, handleExit_submitted _ leader, exitEvents_append]
          have nothing : exitEvents pid [] = [] := rfl
          split
          · split
            · rw [foreign, List.append_nil]
            · rw [nothing, List.append_nil]
          · split
            · rw [foreign, List.append_nil]
            · rw [nothing, List.append_nil]
      · simp only [step, handleExit_of_ne _ leader, and_self]

/-- The exit of the leader of a process on record is reported. -/
theorem handleExit_reports
    {state : State}
    {ctx : Context}
    {pid : Pid}
    {start : BitVec 64}
    (process : ctx.pid = pid)
    (leader : ctx.tid = pid)
    (reserves : ctx.reserved.isSome)
    (found : state.execStart.lookup pid = some start) :
    ∃ e, exitEvents pid (handleExit 0 ctx state).submitted =
        exitEvents pid state.submitted ++ [e] ∧
      e.durationNs = ctx.ktime - start := by
  subst process
  obtain ⟨e, reserved⟩ := Option.isSome_iff_exists.mp reserves
  refine ⟨exitSample ctx (ctx.ktime - start) e, ?_, rfl⟩
  have long : 0 ≤ ctx.ktime - start := BitVec.not_lt.mp BitVec.not_lt_zero
  rw [handleExit_submitted 0 leader.symm, found]
  dsimp only
  rw [if_pos long, reserved, exitEvents_append]
  exact congrArg _ ((exitEvents_exitSample ..).trans (if_pos rfl))

/-! ## The life of a process as bootstrap sees it -/

/-- While the leader lives the entry is there and nothing has been reported;
once it is gone an exit has been. -/
structure Tracks
    (pid : Pid)
    (start : BitVec 64)
    (reported : List Event)
    (threads : Threads)
    (state : State) : Prop where
  alive : pid ∈ threads pid →
    state.execStart.lookup pid = some start ∧ exitEvents pid state.submitted = reported
  gone : pid ∉ threads pid →
    reported.length < (exitEvents pid state.submitted).length

/-- What leaves the leader, the entry and the exit events alone keeps track. -/
theorem Tracks.of_same
    {pid : Pid}
    {start : BitVec 64}
    {reported : List Event}
    {threads next : Threads}
    {state after : State}
    (tracks : Tracks pid start reported threads state)
    (leader : pid ∈ next pid ↔ pid ∈ threads pid)
    (entry : after.execStart.lookup pid = state.execStart.lookup pid)
    (events : exitEvents pid after.submitted = exitEvents pid state.submitted) :
    Tracks pid start reported next after := by
  constructor
  · rw [leader, entry, events]
    exact tracks.alive
  · rw [leader, events]
    exact tracks.gone

/-- Whatever happens while the process goes on keeps track of it. -/
theorem Tracks.step
    {pid : Pid}
    {start : BitVec 64}
    {reported : List Event}
    {threads next : Threads}
    {state : State}
    {happening : Happening}
    (allowed : Allows threads happening next)
    (continues : happening.Continues pid)
    (reserves : happening.Reserves)
    (tracks : Tracks pid start reported threads state) :
    Tracks pid start reported next
      (optionalStep (step 0) state happening.invocation) := by
  cases allowed with
  | @fork other _ =>
      apply tracks.of_same _ rfl rfl
      rw [Function.update_of_ne (Ne.symm continues)]
  | @clone other tid _ _ follower =>
      apply tracks.of_same _ rfl rfl
      by_cases same : pid = other
      · subst same
        rw [Function.update_self, Finset.mem_insert, or_iff_right (Ne.symm follower)]
      · rw [Function.update_of_ne same]
  | @exec ctx _ =>
      obtain ⟨entry, events⟩ :=
        step_of_ne ⟨ctx, .schedProcessExec⟩ continues 0 state
      apply tracks.of_same _ entry events
      rw [Function.update_of_ne (Ne.symm continues)]
  | @exit ctx present =>
      by_cases mine : ctx.pid = pid
      · subst mine
        by_cases leader : ctx.pid = ctx.tid
        · have gone :
              ctx.pid ∉ Function.update threads ctx.pid
                ((threads ctx.pid).erase ctx.tid) ctx.pid := by
            rw [Function.update_self, ← leader]
            exact Finset.notMem_erase ctx.pid _
          obtain ⟨entry, events⟩ := tracks.alive (by rwa [← leader] at present)
          obtain ⟨e, report, -⟩ := handleExit_reports rfl leader.symm reserves entry
          refine ⟨fun there => absurd there gone, fun _ => ?_⟩
          have after : exitEvents ctx.pid (handleExit 0 ctx state).submitted = reported ++ [e] :=
            events ▸ report
          simp only [Happening.invocation, optionalStep, Bootstrap.step, after]
          simp
        · have unchanged : handleExit 0 ctx state = state := handleExit_of_ne 0 leader state
          simp only [Happening.invocation, optionalStep, Bootstrap.step, unchanged]
          apply tracks.of_same _ rfl rfl
          rw [Function.update_self, Finset.mem_erase, and_iff_right leader]
      · obtain ⟨entry, events⟩ :=
          step_of_ne ⟨ctx, .schedProcessExit⟩ mine 0 state
        apply tracks.of_same _ entry events
        rw [Function.update_of_ne (Ne.symm mine)]

theorem stateAfter_append
    (state : State)
    (first second : List Happening) :
    stateAfter state (first ++ second) = stateAfter (stateAfter state first) second := by
  rw [stateAfter, List.filterMap_append, run_append]
  rfl

/-- The exec puts the process on record. -/
theorem Life.atExec_lookup
    {pid : Pid}
    {life : Life pid}
    (remembered : life.Remembered) :
    life.atExec.execStart.lookup pid = some life.exec.ktime := by
  have room : (stateAfter .initial life.before).execStart.HasRoom life.exec.pid := by
    rw [life.exec_pid]
    exact remembered
  have stored : life.atExec =
      handleExec 0 life.exec (stateAfter .initial life.before) :=
    stateAfter_append _ _ _
  rw [stored, handleExec_execStart, State.updateExecStart_lookup room, life.exec_pid,
    Function.update_self]

/-- After the exec the leader is there. -/
theorem Life.leader_born
    {pid : Pid}
    (life : Life pid) :
    pid ∈ life.born pid := by
  obtain ⟨middle, -, exec⟩ := life.youth.split
  have same := life.exec_pid
  generalize life.born = born at exec ⊢
  cases exec with
  | cons allowed rest =>
      cases rest
      cases allowed
      rw [same, Function.update_self]
      exact Finset.mem_singleton_self pid

/-- bootstrap keeps track of a process until the exit of its last thread. -/
theorem Life.tracks
    {pid : Pid}
    {life : Life pid}
    (reserves : ∀ happening ∈ life.during, happening.Reserves)
    (remembered : life.Remembered) :
    Tracks pid life.exec.ktime (exitEvents pid life.atExec.submitted)
      life.dying life.beforeEnd := by
  have both : ∀ happening ∈ life.during, happening.Continues pid ∧ happening.Reserves :=
    fun happening member => ⟨life.continues happening member, reserves happening member⟩
  have start : Tracks pid life.exec.ktime (exitEvents pid life.atExec.submitted)
      life.born life.atExec :=
    ⟨fun _ => ⟨life.atExec_lookup remembered, rfl⟩, fun gone => absurd life.leader_born gone⟩
  have tracked := (life.age.restrict both).simulation
    (fun state happening => optionalStep (Bootstrap.step 0) state happening.invocation)
    (Tracks pid life.exec.ktime (exitEvents pid life.atExec.submitted))
    (fun allowed tracks => tracks.step allowed.1 allowed.2.1 allowed.2.2) start
  rw [run_optionalStep] at tracked
  exact tracked

/-- bootstrap reports the exit of a process when it is over exactly when its
leader is the last of its threads to exit. -/
theorem reportedAtEnd_iff_leader_last
    {pid : Pid}
    (life : Life pid)
    (reserves : ∀ happening ∈ life.during ++ [.exit life.last], happening.Reserves)
    (remembered : life.Remembered) :
    life.ReportedAtEnd ↔ life.last.tid = pid := by
  obtain ⟨duringReserves, lastReserves⟩ := List.forall_mem_append.mp reserves
  have tracks := life.tracks duringReserves remembered
  have leaderLast : pid ∈ life.dying pid ↔ life.last.tid = pid := by
    rw [life.alone, Finset.mem_singleton]
    exact eq_comm
  constructor
  · rintro ⟨silent, -⟩
    rw [← leaderLast]
    by_contra gone
    have reported := tracks.gone gone
    rw [silent] at reported
    exact absurd reported (lt_irrefl _)
  · intro leader
    obtain ⟨entry, silent⟩ := tracks.alive (leaderLast.mpr leader)
    have lastReserved : life.last.reserved.isSome := lastReserves _ (List.mem_singleton_self _)
    obtain ⟨e, report, duration⟩ :=
      handleExit_reports life.last_pid leader lastReserved entry
    rw [silent] at report
    exact ⟨silent, e, report, duration⟩

/-! ## A process with two threads -/

/-- A process executes, creates a second thread, and loses the thread `first`
and then the thread `last`. -/
def twoThreads
    (first last : Pid)
    (present : first ∈ ({8, 7} : Finset Pid))
    (left : ({8, 7} : Finset Pid).erase first = {last}) : Life 7 :=
  let initial : Threads := Function.update (fun _ => ∅) 7 {7}
  let cloned := Function.update (Function.update initial 7 {7}) 7 {8, 7}
  { initial := initial
    born := Function.update initial 7 {7}
    dying := Function.update cloned 7 {last}
    before := []
    exec := .plain 7 7 10
    during := [.clone 7 8, .exit (.plain 7 first 20)]
    last := .plain 7 last 30
    youth := by
      have exec := @Allows.exec initial (.plain 7 7 10) (by simp [initial])
      rw [Context.plain_pid] at exec
      exact .cons exec (.nil _)
    age := by
      have clone := @Allows.clone (Function.update initial 7 {7}) 7 8
        (by simp) (by simp) (by decide)
      rw [Function.update_self] at clone
      have threads : cloned 7 = {8, 7} := Function.update_self ..
      have exit := @Allows.exit cloned (.plain 7 first 20) (by
        rw [Context.plain_pid, Context.plain_tid, threads]
        exact present)
      rw [Context.plain_pid, Context.plain_tid, threads, left] at exit
      exact .cons clone (.cons exit (.nil _))
    exec_pid := Context.plain_pid ..
    last_pid := Context.plain_pid ..
    continues := by simp [Happening.Continues]
    alone := by simp }

/-- When the second thread exits first, the process is reported when it is
over. -/
theorem reportedAtEnd_iff_leader_last_two_threads :
    (twoThreads 8 7 (by decide) (by decide)).ReportedAtEnd :=
  (reportedAtEnd_iff_leader_last (twoThreads 8 7 (by decide) (by decide))
    (by simp [twoThreads, Happening.Reserves, Context.plain]) (by decide)).mpr rfl

/-- When the leader exits first, the process is reported while its other thread
runs, and not when that exits. -/
theorem not_reportedAtEnd_leader_first :
    ∃ life : Life 7,
      (∀ happening ∈ life.during ++ [.exit life.last], happening.Reserves) ∧
        life.Remembered ∧ ¬life.ReportedAtEnd := by
  refine ⟨twoThreads 7 8 (by decide) (by decide), ?_, by decide, ?_⟩
  · simp [twoThreads, Happening.Reserves, Context.plain]
  · rintro ⟨silent, -⟩
    have counts := congrArg List.length silent
    exact absurd counts (by decide)

end Bootstrap
end EbpfHub
