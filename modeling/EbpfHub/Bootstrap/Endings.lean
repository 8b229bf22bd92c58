import EbpfHub.Bootstrap.Session

/-!
# The end of a session of bootstrap

The loop of `main` ends after a signal or when a poll fails.  The status that
`main` returns says which, and a signal is heeded after at most one more poll.
-/

namespace EbpfHub
namespace Bootstrap

open Foundations

/-! ## The end of the loop -/

/-- Every flag and every end of the loop has its reason among the actions. -/
structure Session.Explained (session : Session) (actions : List Action) : Prop where
  exiting : session.exiting = true → .signal ∈ actions
  nonneg : ∀ err, session.phase = .testing err → 0 ≤ err
  ended : ∀ err, session.phase = .ended err →
    0 ≤ err ∧ (.signal ∈ actions ∨ .poll (.failed eintr) ∈ actions) ∨
      ∃ errno : Nat, 0 < errno ∧ errno ≠ eintr ∧ err = -errno ∧ .poll (.failed errno) ∈ actions

namespace Session.Explained

variable {env : Env} {clock : Clock} {session : Session} {actions : List Action}

/-- What changes neither the flag nor the place needs no further reason. -/
theorem of_same
    (explained : session.Explained actions)
    (next : Session)
    (exiting : next.exiting = session.exiting)
    (phase : next.phase = session.phase)
    (action : Action) :
    next.Explained (actions ++ [action]) := by
  refine ⟨?_, ?_, ?_⟩
  · rw [exiting]
    exact fun flag => List.mem_append_left _ (explained.exiting flag)
  · rw [phase]
    exact explained.nonneg
  · rw [phase]
    intro err ended
    rcases explained.ended err ended with ⟨nonneg, reason⟩ | ⟨errno, pos, other, same, failed⟩
    · exact .inl ⟨nonneg, reason.imp (List.mem_append_left _) (List.mem_append_left _)⟩
    · exact .inr ⟨errno, pos, other, same, List.mem_append_left _ failed⟩

theorem poll
    (explained : session.Explained actions)
    (answer : PollAnswer) :
    (session.poll clock answer).Explained (actions ++ [.poll answer]) := by
  have exiting : session.exiting = true → .signal ∈ actions ++ [.poll answer] :=
    fun flag => List.mem_append_left _ (explained.exiting flag)
  have last : Action.poll answer ∈ actions ++ [.poll answer] :=
    List.mem_append_right _ (List.mem_singleton_self _)
  cases answer with
  | consumed count =>
      refine ⟨exiting, ?_, (fun _ ended => by cases ended)⟩
      rintro err phase
      obtain rfl := Phase.testing.inj phase
      exact Int.natCast_nonneg _
  | failed errno =>
      simp only [Session.poll]
      split
      · next interrupted =>
          obtain rfl : errno = eintr := Int.natCast_inj.mp (Int.neg_inj.mp interrupted)
          refine ⟨exiting, (fun _ testing => by cases testing), ?_⟩
          rintro err phase
          obtain rfl := Phase.ended.inj phase
          exact .inl ⟨Int.le_refl 0, .inr last⟩
      · next other =>
          split
          · next negative =>
              refine ⟨exiting, (fun _ testing => by cases testing), ?_⟩
              rintro err phase
              obtain rfl := Phase.ended.inj phase
              refine .inr ⟨errno, by omega, ?_, rfl, last⟩
              rintro rfl
              exact other rfl
          · next nonneg =>
              refine ⟨exiting, ?_, (fun _ ended => by cases ended)⟩
              rintro err phase
              obtain rfl := Phase.testing.inj phase
              exact Int.not_lt.mp nonneg

theorem test
    (explained : session.Explained actions) :
    (session.step env clock .test).Explained (actions ++ [.test]) := by
  cases phase : session.phase with
  | polling => exact explained.of_same _ (by simp only [step, phase]) (by simp only [step, phase]) _
  | ended err =>
      exact explained.of_same _ (by simp only [step, phase]) (by simp only [step, phase]) _
  | testing err =>
      simp only [step, phase]
      cases flag : session.exiting with
      | false =>
          exact ⟨(fun set => by cases set), (fun _ polling => by cases polling),
            (fun _ polling => by cases polling)⟩
      | true =>
          rw [if_pos rfl]
          have signal := List.mem_append_left [Action.test] (explained.exiting flag)
          refine ⟨fun _ => signal, (fun _ ended => by cases ended), ?_⟩
          rintro last ended
          obtain rfl := Phase.ended.inj ended
          exact .inl ⟨explained.nonneg err phase, .inl signal⟩

theorem step
    (explained : session.Explained actions)
    (action : Action) :
    (session.step env clock action).Explained (actions ++ [action]) := by
  cases action with
  | invoke invocation =>
      exact explained.of_same (session.step env clock (.invoke invocation)) rfl rfl _
  | test => exact explained.test
  | signal =>
      have same := explained.of_same session rfl rfl .signal
      exact ⟨fun _ => List.mem_append_right _ (List.mem_singleton_self _), same.nonneg, same.ended⟩
  | poll answer =>
      cases phase : session.phase with
      | polling =>
          simp only [Session.step, phase]
          exact explained.poll answer
      | testing err =>
          exact explained.of_same _ (by simp only [Session.step, phase])
            (by simp only [Session.step, phase]) _
      | ended err =>
          exact explained.of_same _ (by simp only [Session.step, phase])
            (by simp only [Session.step, phase]) _

theorem run
    (actions : List Action) :
    (run (Session.step env clock) (Session.start 0) actions).Explained actions := by
  induction actions using List.reverseRecOn with
  | nil =>
      refine ⟨(fun flag => by cases flag), ?_, (fun _ ended => by cases ended)⟩
      rintro err phase
      obtain rfl := Phase.testing.inj phase
      exact Int.le_refl 0
  | append_singleton actions action inductionHypothesis =>
      rw [run_append]
      exact inductionHypothesis.step action

end Session.Explained

namespace Session

variable (env : Env) (clock : Clock) {session : Session}

/-- After the loop nothing is shown. -/
theorem run_of_ended
    {err : Int}
    (ended : session.phase = .ended err)
    (actions : List Action) :
    (run (step env clock) session actions).phase = .ended err ∧
      (run (step env clock) session actions).calls = session.calls ∧
      (run (step env clock) session actions).lines = session.lines := by
  induction actions generalizing session with
  | nil => exact ⟨ended, rfl, rfl⟩
  | cons action actions inductionHypothesis =>
      have same : (session.step env clock action).phase = .ended err ∧
          (session.step env clock action).calls = session.calls ∧
          (session.step env clock action).lines = session.lines := by
        cases action <;> simp only [step, ended, and_self]
      obtain ⟨phase, calls, lines⟩ := inductionHypothesis same.1
      exact ⟨phase, calls.trans same.2.1, lines.trans same.2.2⟩

theorem status_of_phase
    {code : Int}
    (returned : session.status = some code) :
    ∃ err, session.phase = .ended err ∧ code = exitStatus err := by
  unfold status at returned
  split at returned
  · next err ended => exact ⟨err, ended, (Option.some.inj returned).symm⟩
  · cases returned

end Session

/-- `main` returns zero after a signal or an interrupted poll, and otherwise the
error of a poll; after that nothing is shown and the status stays. -/
theorem main_returns
    (env : Env)
    (setup : Setup)
    (clock : Clock)
    (actions : List Action)
    (session : Session)
    (code : Int)
    (runs : main env setup clock actions = .ok session)
    (returned : session.status = some code) :
    (code = 0 ∧ (.signal ∈ actions ∨ .poll (.failed eintr) ∈ actions) ∨
        ∃ errno : Nat, 0 < errno ∧ errno ≠ eintr ∧ code = errno ∧
          .poll (.failed errno) ∈ actions) ∧
      ∀ more, ∃ later, main env setup clock (actions ++ more) = .ok later ∧
        later.lines = session.lines ∧ later.status = some code := by
  obtain ⟨err, ended, rfl⟩ := Session.status_of_phase returned
  constructor
  · obtain ⟨-, rfl⟩ := main_eq_ok runs
    rcases (Session.Explained.run actions).ended err ended with
      ⟨nonneg, reason⟩ | ⟨errno, pos, other, rfl, failed⟩
    · exact .inl ⟨if_neg (Int.not_lt.mpr nonneg), reason⟩
    · refine .inr ⟨errno, pos, other, ?_, failed⟩
      rw [exitStatus, if_pos (by omega), Int.neg_neg]
  · intro more
    obtain ⟨phase, -, lines⟩ := Session.run_of_ended env clock ended more
    refine ⟨_, main_append runs more, lines, ?_⟩
    rw [Session.status, phase]

/-- The second call of `ring_buffer__poll` finds a full table of files. -/
def failedPoll : List Action := [.test, .poll (.consumed 0), .test, .poll (.failed 23)]

theorem main_returns_failedPoll :
    ∃ later,
      main staticEnv ready midnight (failedPoll ++ [.signal, .test]) = .ok later ∧
        later.lines = (run (Session.step staticEnv midnight) (Session.start 0) failedPoll).lines ∧
        later.status = some 23 :=
  (main_returns staticEnv ready midnight failedPoll _ 23 rfl rfl).2 [.signal, .test]

/-! ## A signal -/

namespace Session

variable (env : Env) (clock : Clock) {session : Session}

/-- Only the test and the poll that the loop has come to change where it is. -/
theorem step_of_elsewhere
    (action : Action)
    (noTest : action = .test → session.phase = .polling)
    (noPoll : ∀ answer, action = .poll answer → session.phase ≠ .polling)
    (exiting : session.exiting = true) :
    (session.step env clock action).exiting = true ∧
      (session.step env clock action).phase = session.phase ∧
      (session.step env clock action).calls = session.calls := by
  cases action with
  | invoke invocation => exact ⟨exiting, rfl, rfl⟩
  | signal => exact ⟨rfl, rfl, rfl⟩
  | test => simp only [step, noTest rfl, exiting, and_self]
  | poll answer =>
      cases phase : session.phase with
      | polling => exact absurd phase (noPoll answer rfl)
      | testing err => simp only [step, phase, exiting, and_self]
      | ended err => simp only [step, phase, exiting, and_self]

/-- Away from a poll, the loop polls no more once the flag is set, and its next
test ends it. -/
theorem run_of_exiting
    (exiting : session.exiting = true)
    (noPoll : session.phase ≠ .polling)
    (actions : List Action) :
    (run (step env clock) session actions).calls = session.calls ∧
      (.test ∈ actions → (run (step env clock) session actions).status.isSome) := by
  induction actions generalizing session with
  | nil => exact ⟨rfl, fun member => by cases member⟩
  | cons action actions inductionHypothesis =>
      by_cases test : action = .test
      · subst test
        cases phase : session.phase with
        | polling => exact absurd phase noPoll
        | ended err =>
            obtain ⟨last, calls, -⟩ := run_of_ended env clock phase
              (.test :: actions)
            refine ⟨calls, fun _ => ?_⟩
            rw [status, last]
            rfl
        | testing err =>
            have ended : (session.step env clock .test).phase = .ended err := by
              simp only [step, phase, exiting, if_true]
            have same : (session.step env clock .test).calls = session.calls := by
              simp only [step, phase]
            obtain ⟨last, calls, -⟩ := run_of_ended env clock ended actions
            refine ⟨calls.trans same, fun _ => ?_⟩
            rw [run_cons, status, last]
            rfl
      · obtain ⟨flag, place, same⟩ := step_of_elsewhere env clock action
          (fun isTest => absurd isTest test) (fun _ _ => noPoll) exiting
        obtain ⟨calls, ends⟩ := inductionHypothesis flag (by rwa [place])
        refine ⟨calls.trans same, fun member => ends ?_⟩
        exact (List.mem_cons.mp member).resolve_left (Ne.symm test)

/-- A poll leaves the flag and goes on, and the calls are those of samples. -/
theorem poll_leaves
    (clock : Clock)
    (session : Session)
    (answer : PollAnswer) :
    (session.poll clock answer).exiting = session.exiting ∧
      (session.poll clock answer).phase ≠ .polling ∧
      ((session.poll clock answer).calls = session.calls ∨
        ∃ count, answer = .consumed count ∧
          (session.poll clock answer).calls ≤ session.calls + count) := by
  cases answer with
  | consumed count =>
      refine ⟨rfl, (fun polling => by cases polling), .inr ⟨count, rfl, ?_⟩⟩
      exact Nat.add_le_add_left (List.length_take_le _ _) _
  | failed errno =>
      simp only [poll]
      split
      · exact ⟨rfl, (fun polling => by cases polling), .inl rfl⟩
      · split
        · exact ⟨rfl, (fun polling => by cases polling), .inl rfl⟩
        · exact ⟨rfl, (fun polling => by cases polling), .inl rfl⟩

/-- Once the flag is set the loop polls at most once more, and it ends when a
poll and a test have had their turn. -/
theorem run_of_exiting_polling
    (exiting : session.exiting = true)
    (polling : session.phase = .polling)
    (actions : List Action) :
    ((run (step env clock) session actions).calls = session.calls ∨
        ∃ count, .poll (.consumed count) ∈ actions ∧
          (run (step env clock) session actions).calls ≤ session.calls + count) ∧
      ∀ answer, [.poll answer, .test].Sublist actions →
        (run (step env clock) session actions).status.isSome := by
  induction actions generalizing session with
  | nil => exact ⟨.inl rfl, fun _ inside => by cases inside⟩
  | cons action actions inductionHypothesis =>
      by_cases poll : ∃ answer, action = .poll answer
      · obtain ⟨answer, rfl⟩ := poll
        obtain ⟨flag, noPoll, few⟩ := session.poll_leaves clock answer
        have next : session.step env clock (.poll answer) = session.poll clock answer := by
          simp only [step, polling]
        obtain ⟨calls, ends⟩ := run_of_exiting env clock (flag.trans exiting)
          noPoll actions
        rw [run_cons, next, calls]
        refine ⟨few.imp_right ?_, fun other inside => ends ?_⟩
        · rintro ⟨count, rfl, most⟩
          exact ⟨count, List.mem_cons_self, most⟩
        · have tests := inside.subset (List.mem_cons_of_mem _ (List.mem_singleton_self _))
          exact (List.mem_cons.mp tests).resolve_left (fun same => by cases same)
      · obtain ⟨flag, place, same⟩ := step_of_elsewhere env clock action
          (fun _ => polling) (fun answer isPoll => absurd ⟨answer, isPoll⟩ poll)
          exiting
        obtain ⟨calls, ends⟩ := inductionHypothesis flag (place.trans polling)
        rw [same] at calls
        refine ⟨calls.imp_right ?_, fun answer inside => ends answer ?_⟩
        · rintro ⟨count, member, most⟩
          exact ⟨count, List.mem_cons_of_mem _ member, most⟩
        · cases inside with
          | cons _ inside => exact inside
          | cons_cons _ _ => exact absurd ⟨answer, rfl⟩ poll

end Session

/-- After a signal the loop polls at most once more, whatever else happens, and
once a poll and a test have had their turn `main` returns. -/
theorem main_stops_on_signal
    (env : Env)
    (setup : Setup)
    (clock : Clock)
    (before after : List Action)
    (earlier : Session)
    (runs : main env setup clock before = .ok earlier) :
    ∃ session, main env setup clock (before ++ .signal :: after) = .ok session ∧
      (session.calls = earlier.calls ∨
        ∃ count, .poll (.consumed count) ∈ after ∧ session.calls ≤ earlier.calls + count) ∧
      ∀ answer, [.poll answer, .test].Sublist after → session.status.isSome := by
  refine ⟨_, main_append runs _, ?_⟩
  rw [run_cons]
  have flag : (earlier.step env clock .signal).exiting = true := rfl
  by_cases polling : earlier.phase = .polling
  · exact Session.run_of_exiting_polling env clock flag polling after
  · obtain ⟨calls, ends⟩ := Session.run_of_exiting env clock flag polling after
    refine ⟨.inl calls, fun answer inside => ends ?_⟩
    exact inside.subset (List.mem_cons_of_mem _ (List.mem_singleton_self _))

theorem main_stops_on_signal_twoProcesses :
    ∃ session, main staticEnv ready midnight
        (twoProcesses ++ .signal :: [.poll (.consumed 5), .test]) = .ok session ∧
      (session.calls = twoProcessesSession.calls ∨
        ∃ count, Action.poll (.consumed count) ∈ [Action.poll (.consumed 5), .test] ∧
          session.calls ≤ twoProcessesSession.calls + count) ∧
      ∀ answer, [Action.poll answer, .test].Sublist [.poll (.consumed 5), .test] →
        session.status.isSome :=
  main_stops_on_signal staticEnv ready midnight twoProcesses [.poll (.consumed 5), .test]
    twoProcessesSession rfl

end Bootstrap
end EbpfHub
