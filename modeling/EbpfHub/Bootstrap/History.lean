import EbpfHub.Bootstrap.Handlers

/-!
# bootstrap against the history of the processes

The history of a process is the list of its execs and of the exits of its
leader.  The map `exec_start` holds what the history says of every process, and
every step emits what the history calls for.
-/

namespace EbpfHub
namespace Bootstrap

open Foundations

/-! ## The history -/

/-- The invocation is an exec of the process. -/
def Invocation.Execs (invocation : Invocation) (pid : Pid) : Prop :=
  invocation.tracepoint = .schedProcessExec ∧ invocation.ctx.pid = pid

/-- The invocation is the exit of the leader of the process. -/
def Invocation.LeaderExits (invocation : Invocation) (pid : Pid) : Prop :=
  invocation.tracepoint = .schedProcessExit ∧
    invocation.ctx.pid = pid ∧ invocation.ctx.tid = pid

instance (invocation : Invocation) (pid : Pid) : Decidable (invocation.Execs pid) :=
  inferInstanceAs (Decidable (_ ∧ _))

instance (invocation : Invocation) (pid : Pid) : Decidable (invocation.LeaderExits pid) :=
  inferInstanceAs (Decidable (_ ∧ _))

/-- The process has executed since its last leader exit, the latest time at
`start`. -/
def Executed (history : List Invocation) (pid : Pid) (start : BitVec 64) : Prop :=
  ∃ before exec after, history = before ++ exec :: after ∧
    exec.Execs pid ∧ exec.ctx.ktime = start ∧
      ∀ later ∈ after, ¬later.Execs pid ∧ ¬later.LeaderExits pid

theorem not_executed_nil (pid : Pid) (start : BitVec 64) : ¬Executed [] pid start := by
  rintro ⟨before, exec, after, split, _⟩
  simp at split

/-- What one more invocation does to the history of a process. -/
theorem executed_append_singleton_iff
    (history : List Invocation)
    (invocation : Invocation)
    (pid : Pid)
    (start : BitVec 64) :
    Executed (history ++ [invocation]) pid start ↔
      invocation.Execs pid ∧ invocation.ctx.ktime = start ∨
        ¬invocation.Execs pid ∧ ¬invocation.LeaderExits pid ∧ Executed history pid start := by
  constructor
  · rintro ⟨before, exec, after, split, execs, time, later⟩
    rcases List.eq_nil_or_concat' after with rfl | ⟨front, last, rfl⟩
    · obtain ⟨rfl, rfl⟩ := List.append_singleton_inj.mp split
      exact .inl ⟨execs, time⟩
    · have regrouped :
          before ++ exec :: (front ++ [last]) = (before ++ exec :: front) ++ [last] := by simp
      rw [regrouped] at split
      obtain ⟨rfl, rfl⟩ := List.append_singleton_inj.mp split
      obtain ⟨noExec, noExit⟩ := later invocation (by simp)
      refine .inr ⟨noExec, noExit, before, exec, front, rfl, execs, time, ?_⟩
      intro other member
      exact later other (List.mem_append_left _ member)
  · rintro (⟨execs, time⟩ | ⟨noExec, noExit, before, exec, after, rfl, execs, time, later⟩)
    · exact ⟨history, invocation, [], rfl, execs, time, by simp⟩
    · refine ⟨before, exec, after ++ [invocation], by simp, execs, time, ?_⟩
      intro other member
      rcases List.mem_append.mp member with early | last
      · exact later other early
      · obtain rfl := List.mem_singleton.mp last
        exact ⟨noExec, noExit⟩

/-- At no point of the history more processes than `exec_start` has entries
have executed since their last leader exit. -/
def Fits (history : List Invocation) : Prop :=
  ∀ before, before <+: history →
    ∀ pids : Finset Pid, (∀ pid ∈ pids, ∃ start, Executed before pid start) →
      pids.card ≤ execStartMaxEntries

/-- A history with at most as many invocations as the map has entries fits. -/
theorem fits_of_length_le
    {history : List Invocation}
    (short : history.length ≤ execStartMaxEntries) :
    Fits history := by
  intro before isPrefix pids executed
  have inside : pids ⊆ (before.map fun invocation => invocation.ctx.pid).toFinset := by
    intro pid member
    obtain ⟨start, front, exec, after, rfl, execs, -⟩ := executed pid member
    simp [← execs.2]
  calc
    pids.card ≤ (before.map fun invocation => invocation.ctx.pid).length :=
      (Finset.card_le_card inside).trans (List.toFinset_card_le _)
    _ = before.length := List.length_map _
    _ ≤ history.length := isPrefix.length_le
    _ ≤ execStartMaxEntries := short

/-- The clock does not run backwards. -/
def Monotone (history : List Invocation) : Prop :=
  history.Pairwise fun earlier later => earlier.ctx.ktime ≤ later.ctx.ktime

/-! ## What one program does -/

@[simp] theorem State.submit_execStart
    (state : State)
    (reserved : Option Event)
    (fill : Event → Event) :
    (state.submit reserved fill).execStart = state.execStart := by
  cases reserved <;> rfl

@[simp] theorem State.submit_submitted
    (state : State)
    (reserved : Option Event)
    (fill : Event → Event) :
    (state.submit reserved fill).submitted = state.submitted ++ (reserved.map fill).toList := by
  cases reserved with
  | none => exact (List.append_nil _).symm
  | some e => rfl

@[simp] theorem State.updateExecStart_submitted
    (state : State)
    (pid : Pid)
    (ts : BitVec 64) :
    (state.updateExecStart pid ts).submitted = state.submitted := by
  unfold updateExecStart
  split <;> rfl

/-- With room in the map the update sets the entry of the process. -/
theorem State.updateExecStart_lookup
    {state : State}
    {pid : Pid}
    (room : state.execStart.HasRoom pid)
    (ts : BitVec 64) :
    (state.updateExecStart pid ts).execStart.lookup =
      Function.update state.execStart.lookup pid (some ts) := by
  have succeeds := state.execStart.tryInsert_isSome pid ts
  rw [decide_eq_true room] at succeeds
  obtain ⟨inserted, success⟩ := Option.isSome_iff_exists.mp succeeds
  unfold updateExecStart
  rw [success]
  exact BoundedMap.lookup_of_tryInsert success

theorem handleExec_execStart
    (minDurationNs : BitVec 64)
    (ctx : Context)
    (state : State) :
    (handleExec minDurationNs ctx state).execStart =
      (state.updateExecStart ctx.pid ctx.ktime).execStart := by
  unfold handleExec
  dsimp only
  split
  · rfl
  · rw [State.submit_execStart]

/-- The end of `handle_exit` has deleted the entry of the process on every
path. -/
theorem finishExit_execStart
    (minDurationNs : BitVec 64)
    (ctx : Context)
    (durationNs : BitVec 64)
    (state : State) :
    (finishExit minDurationNs ctx durationNs state).execStart =
      state.execStart.erase ctx.pid := by
  unfold finishExit
  dsimp only
  split
  · rfl
  · rw [State.submit_execStart]
    rfl

/-- The exit of a leader leaves no entry of its process, on every return path
of `handle_exit`. -/
theorem handleExit_execStart_lookup
    (minDurationNs : BitVec 64)
    {ctx : Context}
    (leader : ctx.pid = ctx.tid)
    (state : State) :
    (handleExit minDurationNs ctx state).execStart.lookup =
      Function.update state.execStart.lookup ctx.pid none := by
  unfold handleExit
  rw [if_neg (not_not.mpr leader)]
  cases found : state.execStart.lookup ctx.pid with
  | some startTs =>
      dsimp only
      rw [finishExit_execStart, BoundedMap.lookup_erase]
  | none =>
      dsimp only
      split
      · exact (Function.update_eq_self_iff.mpr found.symm).symm
      · rw [finishExit_execStart, BoundedMap.lookup_erase]

/-- The exit of another thread changes nothing. -/
theorem handleExit_of_ne
    (minDurationNs : BitVec 64)
    {ctx : Context}
    (follower : ctx.pid ≠ ctx.tid)
    (state : State) :
    handleExit minDurationNs ctx state = state :=
  if_pos follower

theorem handleExec_submitted
    (minDurationNs : BitVec 64)
    (ctx : Context)
    (state : State) :
    (handleExec minDurationNs ctx state).submitted =
      state.submitted ++
        if minDurationNs = 0 then (ctx.reserved.map (execSample ctx)).toList else [] := by
  unfold handleExec
  dsimp only
  by_cases noMinimum : minDurationNs = 0
  · rw [if_neg (not_not.mpr noMinimum), if_pos noMinimum]
    simp only [State.submit_submitted, State.updateExecStart_submitted]
  · rw [if_pos noMinimum, if_neg noMinimum, List.append_nil, State.updateExecStart_submitted]

theorem finishExit_submitted
    (minDurationNs : BitVec 64)
    (ctx : Context)
    (durationNs : BitVec 64)
    (state : State) :
    (finishExit minDurationNs ctx durationNs state).submitted =
      state.submitted ++
        if minDurationNs ≤ durationNs then
          (ctx.reserved.map (exitSample ctx durationNs)).toList
        else [] := by
  unfold finishExit
  by_cases short : durationNs < minDurationNs
  · have minimum : minDurationNs ≠ 0 := by
      rintro rfl
      exact BitVec.not_lt_zero short
    rw [if_pos ⟨minimum, short⟩, if_neg (BitVec.not_le.mpr short), List.append_nil]
    rfl
  · rw [if_neg (fun both => short both.2), if_pos (BitVec.not_lt.mp short)]
    exact State.submit_submitted _ _ _

theorem handleExit_submitted
    (minDurationNs : BitVec 64)
    {ctx : Context}
    (leader : ctx.pid = ctx.tid)
    (state : State) :
    (handleExit minDurationNs ctx state).submitted =
      state.submitted ++
        match state.execStart.lookup ctx.pid with
        | some startTs =>
            if minDurationNs ≤ ctx.ktime - startTs then
              (ctx.reserved.map (exitSample ctx (ctx.ktime - startTs))).toList
            else []
        | none =>
            if minDurationNs = 0 then (ctx.reserved.map (exitSample ctx 0)).toList else [] := by
  unfold handleExit
  rw [if_neg (not_not.mpr leader)]
  cases state.execStart.lookup ctx.pid with
  | some startTs => exact finishExit_submitted _ _ _ _
  | none =>
      dsimp only
      by_cases noMinimum : minDurationNs = 0
      · rw [if_neg (not_not.mpr noMinimum), if_pos noMinimum, finishExit_submitted,
          if_pos (noMinimum ▸ BitVec.le_refl 0)]
      · rw [if_pos noMinimum, if_neg noMinimum, List.append_nil]

/-! ## The map holds what the history says -/

/-- The map holds what the history says of every process. -/
def Records (state : State) (history : List Invocation) : Prop :=
  ∀ pid start, state.execStart.lookup pid = some start ↔ Executed history pid start

/-- An exec finds room when the history fits. -/
theorem Records.hasRoom
    {state : State}
    {history : List Invocation}
    {invocation : Invocation}
    (records : Records state history)
    (fits : Fits (history ++ [invocation]))
    (exec : invocation.tracepoint = .schedProcessExec) :
    state.execStart.HasRoom invocation.ctx.pid := by
  apply fits _ (List.prefix_rfl)
  intro pid member
  by_cases same : invocation.ctx.pid = pid
  · refine ⟨invocation.ctx.ktime, ?_⟩
    rw [executed_append_singleton_iff]
    exact .inl ⟨⟨exec, same⟩, rfl⟩
  · have stored : pid ∈ state.execStart.keys :=
      (Finset.mem_insert.mp member).resolve_left (Ne.symm same)
    obtain ⟨start, present⟩ := (state.execStart.mem_keys_iff pid).mp stored
    refine ⟨start, ?_⟩
    rw [executed_append_singleton_iff]
    refine .inr ⟨fun execs => same execs.2, fun exits => same exits.2.1, ?_⟩
    exact (records pid start).mp present

/-- A step keeps the map in accord with the history. -/
theorem Records.step
    {state : State}
    {history : List Invocation}
    {invocation : Invocation}
    (records : Records state history)
    (fits : Fits (history ++ [invocation]))
    (minDurationNs : BitVec 64) :
    Records (step minDurationNs state invocation) (history ++ [invocation]) := by
  obtain ⟨ctx, tracepoint⟩ := invocation
  intro pid start
  rw [executed_append_singleton_iff, ← records pid start]
  cases tracepoint with
  | schedProcessExec =>
      have room := records.hasRoom fits rfl
      simp only [Bootstrap.step, handleExec_execStart, State.updateExecStart_lookup room]
      by_cases same : pid = ctx.pid
      · subst same
        simp [Invocation.Execs]
      · simp [Invocation.Execs, Invocation.LeaderExits, same, Ne.symm same]
  | schedProcessExit =>
      by_cases leader : ctx.pid = ctx.tid
      · simp only [Bootstrap.step, handleExit_execStart_lookup _ leader]
        by_cases same : pid = ctx.pid
        · subst same
          simp [Invocation.Execs, Invocation.LeaderExits, ← leader]
        · simp [Invocation.Execs, Invocation.LeaderExits, same, Ne.symm same]
      · have noLeader : ¬(ctx.pid = pid ∧ ctx.tid = pid) := by
          rintro ⟨rfl, same⟩
          exact leader same.symm
        simp only [Bootstrap.step, handleExit_of_ne _ leader]
        simp [Invocation.Execs, Invocation.LeaderExits, noLeader]

/-- After every run the map is in accord with the history. -/
theorem records_runInvocations
    (minDurationNs : BitVec 64)
    (history : List Invocation)
    (fits : Fits history) :
    Records (runInvocations minDurationNs history) history := by
  induction history using List.reverseRecOn with
  | nil =>
      intro pid start
      exact iff_of_false (by simp [runInvocations, State.initial]) (not_executed_nil pid start)
  | append_singleton history invocation inductionHypothesis =>
      have front : Fits history := by
        intro before isPrefix
        exact fits before (isPrefix.trans (List.prefix_append _ _))
      rw [runInvocations, run_append]
      exact (inductionHypothesis front).step fits minDurationNs

/-! ## Every step emits what the history calls for -/

/-- One sample as expected when the condition holds, and nothing otherwise. -/
def EmitsOne (emitted : List Event) (condition : Prop) (expected : Event → Prop) : Prop :=
  condition ∧ (∃ e, emitted = [e] ∧ expected e) ∨ ¬condition ∧ emitted = []

theorem emitsOne_ite
    {reserved : Option Event}
    {fill : Event → Event}
    {expected : Event → Prop}
    (filled : ∀ e, expected (fill e))
    (condition : Prop)
    [Decidable condition] :
    EmitsOne (if condition then (reserved.map fill).toList else [])
      (reserved.isSome ∧ condition) expected := by
  by_cases holds : condition
  · cases reserved with
    | none => exact .inr ⟨by simp, by simp⟩
    | some e => exact .inl ⟨⟨rfl, holds⟩, fill e, by simp [holds], filled e⟩
  · exact .inr ⟨fun both => holds both.2, if_neg holds⟩

theorem EmitsOne.congr
    {emitted : List Event}
    {condition condition' : Prop}
    {expected : Event → Prop}
    (emits : EmitsOne emitted condition expected)
    (same : condition ↔ condition') :
    EmitsOne emitted condition' expected := by
  rwa [EmitsOne, ← same]

/-- The duration is the time since the exec that the history has on record,
without wrap-around, and zero when it has none. -/
def Lifetime (history : List Invocation) (ctx : Context) (durationNs : BitVec 64) : Prop :=
  (∀ start, Executed history ctx.pid start →
      start.toNat + durationNs.toNat = ctx.ktime.toNat) ∧
    ((∀ start, ¬Executed history ctx.pid start) → durationNs = 0)

/-- What an invocation emits after the given history. -/
def Owed
    (minDurationNs : BitVec 64)
    (history : List Invocation)
    (invocation : Invocation)
    (emitted : List Event) : Prop :=
  let ctx := invocation.ctx
  match invocation.tracepoint with
  | .schedProcessExec =>
      EmitsOne emitted (ctx.reserved.isSome ∧ minDurationNs = 0) fun e =>
        e.exitEvent = false ∧ e.pid = ctx.pid
  | .schedProcessExit =>
      if ctx.pid = ctx.tid then
        EmitsOne emitted
          (ctx.reserved.isSome ∧ (minDurationNs = 0 ∨
            ∃ start, Executed history ctx.pid start ∧
              start.toNat + minDurationNs.toNat ≤ ctx.ktime.toNat))
          fun e => e.exitEvent = true ∧ e.pid = ctx.pid ∧ Lifetime history ctx e.durationNs
      else emitted = []

/-- What the history has on record happened no later than the next
invocation. -/
theorem Executed.le_ktime
    {history : List Invocation}
    {invocation : Invocation}
    {pid : Pid}
    {start : BitVec 64}
    (executed : Executed history pid start)
    (clock : Monotone (history ++ [invocation])) :
    start ≤ invocation.ctx.ktime := by
  obtain ⟨before, exec, after, rfl, -, rfl, -⟩ := executed
  apply (List.pairwise_append.mp clock).2.2
  · simp
  · simp

/-- A leader exit emits what the history calls for. -/
theorem handleExit_owed
    (minDurationNs : BitVec 64)
    {state : State}
    {history : List Invocation}
    {ctx : Context}
    (records : Records state history)
    (clock : Monotone (history ++ [⟨ctx, .schedProcessExit⟩]))
    (leader : ctx.pid = ctx.tid) :
    ∃ emitted,
      (handleExit minDurationNs ctx state).submitted = state.submitted ++ emitted ∧
        Owed minDurationNs history ⟨ctx, .schedProcessExit⟩ emitted := by
  refine ⟨_, handleExit_submitted minDurationNs leader state, ?_⟩
  simp only [Owed, leader, if_true]
  rw [← leader]
  cases found : state.execStart.lookup ctx.pid with
  | none =>
      have absent : ∀ start, ¬Executed history ctx.pid start := by
        intro start executed
        rw [(records ctx.pid start).mpr executed] at found
        cases found
      refine (emitsOne_ite ?_ _).congr (by simp [absent])
      intro e
      exact ⟨rfl, rfl, fun start executed => absurd executed (absent start), fun _ => rfl⟩
  | some startTs =>
      have executed : Executed history ctx.pid startTs := (records ctx.pid startTs).mp found
      have only : ∀ start, Executed history ctx.pid start ↔ startTs = start := by
        intro start
        rw [← records ctx.pid start, found, Option.some.injEq]
      have earlier : startTs ≤ ctx.ktime := executed.le_ktime clock
      have noWrap : startTs.toNat + (ctx.ktime - startTs).toNat = ctx.ktime.toNat := by
        rw [BitVec.toNat_sub_of_le earlier]
        exact Nat.add_sub_cancel' earlier
      refine (emitsOne_ite ?_ _).congr (and_congr_right fun _ => ?_)
      · intro e
        refine ⟨rfl, rfl, ?_, fun absent => absurd executed (absent startTs)⟩
        intro start other
        obtain rfl := (only start).mp other
        exact noWrap
      · simp only [only, exists_eq_left', BitVec.le_def]
        constructor
        · intro long
          exact .inr (by omega)
        · rintro (rfl | long)
          · simp
          · omega

/-- The map `exec_start` and the samples match the history of the processes:
after every step the map holds, for every process, the time of the latest exec
since its last leader exit, the step emits what the history calls for, and the
exit of a thread other than the leader changes nothing. -/
theorem bootstrap_matches_history
    (minDurationNs : BitVec 64)
    (history : List Invocation)
    (clock : Monotone history)
    (fits : Fits history)
    (before : List Invocation)
    (invocation : Invocation)
    (after : List Invocation)
    (split : history = before ++ invocation :: after) :
    Records (runInvocations minDurationNs (before ++ [invocation])) (before ++ [invocation]) ∧
      (∃ emitted,
        (runInvocations minDurationNs (before ++ [invocation])).submitted =
            (runInvocations minDurationNs before).submitted ++ emitted ∧
          Owed minDurationNs before invocation emitted) ∧
      (invocation.tracepoint = .schedProcessExit → invocation.ctx.pid ≠ invocation.ctx.tid →
        runInvocations minDurationNs (before ++ [invocation]) =
          runInvocations minDurationNs before) := by
  have isPrefix : before ++ [invocation] <+: history := ⟨after, by simp [split]⟩
  have soFar : Fits (before ++ [invocation]) := fun front inside =>
    fits front (inside.trans isPrefix)
  have ordered : Monotone (before ++ [invocation]) := clock.sublist isPrefix.sublist
  have records : Records (runInvocations minDurationNs before) before :=
    records_runInvocations minDurationNs before fun front inside =>
      soFar front (inside.trans (List.prefix_append _ _))
  refine ⟨records_runInvocations minDurationNs _ soFar, ?_, ?_⟩
  · obtain ⟨ctx, tracepoint⟩ := invocation
    rw [runInvocations, run_append]
    cases tracepoint with
    | schedProcessExec =>
        refine ⟨_, handleExec_submitted minDurationNs ctx _, emitsOne_ite ?_ _⟩
        exact fun e => ⟨rfl, rfl⟩
    | schedProcessExit =>
        by_cases leader : ctx.pid = ctx.tid
        · exact handleExit_owed minDurationNs records ordered leader
        · refine ⟨[], ?_, ?_⟩
          · rw [List.append_nil]
            exact congrArg State.submitted (handleExit_of_ne minDurationNs leader _)
          · simp only [Owed, leader, if_false]
  · intro exit follower
    rw [runInvocations, run_append]
    simp only [run_cons, run_nil, Bootstrap.step, exit]
    exact handleExit_of_ne minDurationNs follower _

/-- A process executes, lives for fifteen nanoseconds and exits.  At least five
are asked for. -/
theorem bootstrap_matches_history_short_life :
    let history : List Invocation :=
      [⟨.plain 7 7 10, .schedProcessExec⟩, ⟨.plain 7 7 25, .schedProcessExit⟩]
    Records (runInvocations 5 history) history ∧
      (∃ emitted,
        (runInvocations 5 history).submitted =
            (runInvocations 5 (history.take 1)).submitted ++ emitted ∧
          Owed 5 (history.take 1) ⟨.plain 7 7 25, .schedProcessExit⟩ emitted) ∧
      (Tracepoint.schedProcessExit = .schedProcessExit →
        (Context.plain 7 7 25).pid ≠ (Context.plain 7 7 25).tid →
          runInvocations 5 history = runInvocations 5 (history.take 1)) :=
  bootstrap_matches_history 5
    [⟨.plain 7 7 10, .schedProcessExec⟩, ⟨.plain 7 7 25, .schedProcessExit⟩]
    (by simp [Monotone, Context.plain]) (fits_of_length_le (by decide))
    [⟨.plain 7 7 10, .schedProcessExec⟩] ⟨.plain 7 7 25, .schedProcessExit⟩ [] rfl

end Bootstrap
end EbpfHub
