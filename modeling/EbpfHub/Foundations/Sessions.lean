import Mathlib.Logic.Function.Basic
import Mathlib.Data.List.Basic

/-!
# Machines that answer, and families of them

A machine answers every event or fails.  A run of it leaves a log of the events
with their answers.  In a family every event belongs to the machine of its
owner: a run of the family is, for each owner, the run of its machine over its
own events, in whatever order the events of the owners follow each other.
-/

namespace Foundations

/-- The state after a run and the log of its events with their answers, unless
a step fails. -/
def runLog (step : σ → ε → Except φ (σ × α)) : σ → List ε → Except φ (σ × List (ε × α))
  | state, [] => .ok (state, [])
  | state, event :: events =>
      match step state event with
      | .error failure => .error failure
      | .ok (next, answer) =>
          (runLog step next events).map fun result => (result.1, (event, answer) :: result.2)

section Runs

variable {step : σ → ε → Except φ (σ × α)}

@[simp] theorem runLog_nil (state : σ) : runLog step state [] = .ok (state, []) := rfl

theorem runLog_cons_of_error
    {state : σ}
    {event : ε}
    {failure : φ}
    (head : step state event = .error failure)
    (events : List ε) :
    runLog step state (event :: events) = .error failure := by
  rw [runLog, head]

theorem runLog_cons_of_ok
    {state next : σ}
    {event : ε}
    {answer : α}
    (head : step state event = .ok (next, answer))
    (events : List ε) :
    runLog step state (event :: events) =
      (runLog step next events).map fun result => (result.1, (event, answer) :: result.2) := by
  rw [runLog, head]

/-- A run succeeds when its first step and the run of the others do. -/
theorem runLog_cons_eq_ok_iff
    {state final : σ}
    {event : ε}
    {events : List ε}
    {log : List (ε × α)} :
    runLog step state (event :: events) = .ok (final, log) ↔
      ∃ next answer rest, step state event = .ok (next, answer) ∧
        runLog step next events = .ok (final, rest) ∧ log = (event, answer) :: rest := by
  constructor
  · intro succeeds
    cases head : step state event with
    | error failure =>
        rw [runLog_cons_of_error head] at succeeds
        cases succeeds
    | ok result =>
        rw [runLog_cons_of_ok head] at succeeds
        cases tail : runLog step result.1 events with
        | error failure =>
            rw [tail] at succeeds
            cases succeeds
        | ok others =>
            rw [tail] at succeeds
            cases succeeds
            exact ⟨result.1, result.2, others.2, rfl, tail, rfl⟩
  · rintro ⟨next, answer, rest, head, tail, rfl⟩
    rw [runLog_cons_of_ok head, tail]
    rfl

/-- A machine whose steps are, seen through an abstraction, those of another has
its runs. -/
theorem runLog_abstract
    {machine : τ → ε → Except φ (τ × α)}
    (abstracts : τ → σ)
    (holds : τ → Prop)
    {events : List ε}
    (preserved : ∀ state, ∀ event ∈ events, ∀ next answer,
      machine state event = .ok (next, answer) → holds state → holds next)
    (steps : ∀ state, ∀ event ∈ events, holds state →
      (machine state event).map (fun result => (abstracts result.1, result.2)) =
        step (abstracts state) event)
    {state : τ}
    (start : holds state) :
    (runLog machine state events).map (fun result => (abstracts result.1, result.2)) =
      runLog step (abstracts state) events := by
  induction events generalizing state with
  | nil => rfl
  | cons event events inductionHypothesis =>
      have here := steps state event List.mem_cons_self start
      cases head : machine state event with
      | error failure =>
          rw [head] at here
          rw [runLog_cons_of_error head, runLog_cons_of_error here.symm]
          rfl
      | ok result =>
          rw [head] at here
          have next : holds result.1 :=
            preserved state event List.mem_cons_self result.1 result.2 head start
          have tail := inductionHypothesis
            (fun state event member => preserved state event (List.mem_cons_of_mem _ member))
            (fun state event member => steps state event (List.mem_cons_of_mem _ member)) next
          rw [runLog_cons_of_ok head, runLog_cons_of_ok here.symm, ← tail]
          cases runLog machine result.1 events with
          | error failure => rfl
          | ok others => rfl

end Runs

/-! ## Families -/

section Families

variable {κ : Type*} {σ : Type*} [DecidableEq κ]

/-- The step of a family: the machine of the owner answers. -/
def family
    (step : σ → ε → Except φ (σ × α))
    (owner : ε → κ)
    (states : κ → σ)
    (event : ε) : Except φ ((κ → σ) × α) :=
  (step (states (owner event)) event).map fun result =>
    (Function.update states (owner event) result.1, result.2)

/-- The events of an owner. -/
def ownedBy (owner : ε → κ) (key : κ) (events : List ε) : List ε :=
  events.filter fun event => owner event = key

/-- The part of a log that is about an owner. -/
def logOf (owner : ε → κ) (key : κ) (log : List (ε × α)) : List (ε × α) :=
  log.filter fun entry => owner entry.1 = key

variable {step : σ → ε → Except φ (σ × α)} {owner : ε → κ}

theorem family_eq_ok_iff
    {states final : κ → σ}
    {event : ε}
    {answer : α} :
    family step owner states event = .ok (final, answer) ↔
      ∃ next, step (states (owner event)) event = .ok (next, answer) ∧
        final = Function.update states (owner event) next := by
  unfold family
  cases step (states (owner event)) event with
  | error failure => simp [Except.map]
  | ok result =>
      obtain ⟨next, other⟩ := result
      constructor
      · rintro ⟨⟩
        exact ⟨next, rfl, rfl⟩
      · rintro ⟨_, ⟨⟩, rfl⟩
        rfl

/-- A run of a family is the run of every machine over its own events. -/
theorem runLog_family
    {states final : κ → σ}
    {events : List ε}
    {log : List (ε × α)}
    (succeeds : runLog (family step owner) states events = .ok (final, log))
    (key : κ) :
    runLog step (states key) (ownedBy owner key events) = .ok (final key, logOf owner key log) := by
  induction events generalizing states log with
  | nil =>
      cases succeeds
      rfl
  | cons event events inductionHypothesis =>
      obtain ⟨_, answer, rest, head, tail, rfl⟩ := runLog_cons_eq_ok_iff.mp succeeds
      obtain ⟨next, own, rfl⟩ := family_eq_ok_iff.mp head
      have others := inductionHypothesis tail
      unfold ownedBy logOf at others ⊢
      by_cases owned : owner event = key
      · subst owned
        rw [Function.update_self] at others
        rw [List.filter_cons_of_pos (by simp), List.filter_cons_of_pos (by simp)]
        exact runLog_cons_eq_ok_iff.mpr ⟨next, answer, _, own, others, rfl⟩
      · rw [Function.update_of_ne (Ne.symm owned)] at others
        rwa [List.filter_cons_of_neg (by simpa using owned),
          List.filter_cons_of_neg (by simpa using owned)]

/-- A run of a family succeeds when the runs of all its machines do. -/
theorem runLog_family_succeeds
    {states : κ → σ}
    {events : List ε}
    (alone : ∀ key, ∃ result,
      runLog step (states key) (ownedBy owner key events) = .ok result) :
    ∃ result, runLog (family step owner) states events = .ok result := by
  induction events generalizing states with
  | nil => exact ⟨_, rfl⟩
  | cons event events inductionHypothesis =>
      obtain ⟨⟨final, log⟩, own⟩ := alone (owner event)
      unfold ownedBy at own
      rw [List.filter_cons_of_pos (by simp)] at own
      obtain ⟨next, answer, rest, head, tail, rfl⟩ := runLog_cons_eq_ok_iff.mp own
      have step := family_eq_ok_iff.mpr ⟨next, head, rfl⟩
      obtain ⟨⟨last, others⟩, reached⟩ :
          ∃ result, runLog (family _ owner) (Function.update states (owner event) next) events =
            .ok result := by
        apply inductionHypothesis
        intro key
        by_cases owned : owner event = key
        · subst owned
          rw [Function.update_self]
          exact ⟨_, tail⟩
        · rw [Function.update_of_ne (Ne.symm owned)]
          obtain ⟨result, run⟩ := alone key
          unfold ownedBy at run
          rw [List.filter_cons_of_neg (by simpa using owned)] at run
          exact ⟨result, run⟩
      exact ⟨_, runLog_cons_eq_ok_iff.mpr ⟨_, answer, others, step, reached, rfl⟩⟩

/-- The run of an owner's machine over its own events that succeeds is part of
the run of the family that succeeds with the others. -/
theorem runLog_family_succeeds_iff
    {states : κ → σ}
    {events : List ε} :
    (∃ result, runLog (family step owner) states events = .ok result) ↔
      ∀ key, ∃ result, runLog step (states key) (ownedBy owner key events) = .ok result := by
  constructor
  · rintro ⟨⟨final, log⟩, succeeds⟩ key
    exact ⟨_, runLog_family succeeds key⟩
  · exact runLog_family_succeeds

end Families

end Foundations
