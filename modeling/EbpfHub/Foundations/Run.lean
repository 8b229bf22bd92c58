import Mathlib.Data.List.Basic

/-!
# Runs of a deterministic machine and the traces that describe them

A machine reacts to every event.  What is assumed about the events, and the
ghost state that records their past, is a labelled transition relation; a trace
of that relation accompanies the run of the machine.
-/

namespace Foundations

/-- The state reached by handling a list of events in order. -/
def run (step : σ → ε → σ) (state : σ) (events : List ε) : σ :=
  events.foldl step state

@[simp] theorem run_nil (step : σ → ε → σ) (state : σ) :
    run step state [] = state := rfl

@[simp] theorem run_cons
    (step : σ → ε → σ)
    (state : σ)
    (event : ε)
    (events : List ε) :
    run step state (event :: events) = run step (step state event) events := rfl

@[simp] theorem run_append
    (step : σ → ε → σ)
    (state : σ)
    (first second : List ε) :
    run step state (first ++ second) = run step (run step state first) second :=
  List.foldl_append

/-- The run of the first `index + 1` events is one step longer than the run of
the first `index`. -/
theorem run_take_succ
    (step : σ → ε → σ)
    (state : σ)
    {events : List ε}
    {index : Nat}
    {event : ε}
    (here : events[index]? = some event) :
    run step state (events.take (index + 1)) =
      step (run step state (events.take index)) event := by
  rw [List.take_add_one, here, run_append]
  rfl

/-- Two machines that run side by side reach the states of their own runs. -/
theorem run_prod
    (first : σ → ε → σ)
    (second : τ → ε → τ)
    (state : σ × τ)
    (events : List ε) :
    run (fun pair event => (first pair.1 event, second pair.2 event)) state events =
      (run first state.1 events, run second state.2 events) := by
  induction events generalizing state with
  | nil => rfl
  | cons event events inductionHypothesis =>
      simp only [run_cons]
      exact inductionHypothesis (first state.1 event, second state.2 event)

/-- A machine that handles another's events reaches the states of their images. -/
theorem run_map
    (step : σ → ε → σ)
    (label : δ → ε)
    (state : σ)
    (items : List δ) :
    run (fun state item => step state (label item)) state items =
      run step state (items.map label) :=
  (List.foldl_map ..).symm

/-- Handle an event if there is one. -/
def optionalStep (step : σ → ε → σ) (state : σ) : Option ε → σ
  | none => state
  | some event => step state event

/-- A machine that skips some events reaches the states of the others. -/
theorem run_optionalStep
    (step : σ → ε → σ)
    (label : δ → Option ε)
    (state : σ)
    (items : List δ) :
    run (fun state item => optionalStep step state (label item)) state items =
      run step state (items.filterMap label) := by
  induction items generalizing state with
  | nil => rfl
  | cons item items inductionHypothesis =>
      rw [run_cons, inductionHypothesis]
      cases labelled : label item with
      | none => rw [List.filterMap_cons_none labelled, optionalStep]
      | some event => rw [List.filterMap_cons_some labelled, run_cons, optionalStep]

/-- A property that every step preserves holds after every run. -/
theorem run_invariant
    {step : σ → ε → σ}
    (holds : σ → Prop)
    (preserved : ∀ state event, holds state → holds (step state event))
    {state : σ}
    (start : holds state)
    (events : List ε) :
    holds (run step state events) := by
  induction events generalizing state with
  | nil => exact start
  | cons event events inductionHypothesis =>
      exact inductionHypothesis (preserved state event start)

/-- Every event of a run is good in the state that it finds. -/
def Along (step : σ → ε → σ) (good : σ → ε → Prop) : σ → List ε → Prop
  | _, [] => True
  | state, event :: events => good state event ∧ Along step good (step state event) events

/-- A property that good events preserve holds after a run of good events. -/
theorem Along.invariant
    {step : σ → ε → σ}
    {good : σ → ε → Prop}
    (holds : σ → Prop)
    (preserved : ∀ state event, good state event → holds state → holds (step state event))
    {state : σ}
    {events : List ε}
    (along : Along step good state events)
    (start : holds state) :
    holds (run step state events) := by
  induction events generalizing state with
  | nil => exact start
  | cons event events inductionHypothesis =>
      exact inductionHypothesis along.2 (preserved state event along.1 start)

/-- Where the good events are just those that keep a property, the property
holds at every point of the runs of good events, and of no others. -/
theorem Along.iff_invariant
    {step : σ → ε → σ}
    {good : σ → ε → Prop}
    (holds : σ → Prop)
    (exact : ∀ state event, holds state → (holds (step state event) ↔ good state event))
    {state : σ}
    (start : holds state)
    (events : List ε) :
    (∀ count, holds (run step state (events.take count))) ↔ Along step good state events := by
  induction events generalizing state with
  | nil => exact iff_of_true (fun _ => by rwa [List.take_nil]) trivial
  | cons event events inductionHypothesis =>
      constructor
      · intro always
        have next : holds (step state event) := always 1
        refine ⟨(exact state event start).mp next, (inductionHypothesis next).mp ?_⟩
        intro count
        exact always (count + 1)
      · rintro ⟨first, rest⟩ count
        have next : holds (step state event) := (exact state event start).mpr first
        cases count with
        | zero => exact start
        | succ count => exact (inductionHypothesis next).mpr rest count

/-- A measure that no step decreases is not decreased by a run. -/
theorem run_monotone
    {step : σ → ε → σ}
    {measure : σ → Nat}
    (grows : ∀ state event, measure state ≤ measure (step state event))
    (state : σ)
    (events : List ε) :
    measure state ≤ measure (run step state events) := by
  induction events generalizing state with
  | nil => exact Nat.le_refl _
  | cons event events inductionHypothesis =>
      exact Nat.le_trans (grows state event) (inductionHypothesis (step state event))

/-- What holds after a run that did not start with it has held since the last
event that brought it about: no later event ended it. -/
theorem run_since
    (step : σ → ε → σ)
    (state : σ)
    (events : List ε)
    (holds : σ → Prop)
    (begins ends : σ → ε → Prop)
    (steps : ∀ state event, holds (step state event) →
      begins state event ∨ holds state ∧ ¬ends state event)
    (start : ¬holds state)
    (count : Nat)
    (now : holds (run step state (events.take count))) :
    ∃ index event, index < count ∧ events[index]? = some event ∧
      begins (run step state (events.take index)) event ∧
      ∀ between later, index < between → between < count → events[between]? = some later →
        ¬ends (run step state (events.take between)) later := by
  induction count with
  | zero => exact absurd now start
  | succ count inductionHypothesis =>
      cases here : events[count]? with
      | none =>
          have past : events.length ≤ count := List.getElem?_eq_none_iff.mp here
          rw [List.take_of_length_le (by omega)] at now
          rw [List.take_of_length_le past] at inductionHypothesis
          obtain ⟨index, event, earlier, found, began, kept⟩ := inductionHypothesis now
          refine ⟨index, event, by omega, found, began, ?_⟩
          intro between later after before atBetween
          have inside : between < events.length :=
            (List.getElem?_eq_some_iff.mp atBetween).1
          exact kept between later after (by omega) atBetween
      | some event =>
          rw [run_take_succ step state here] at now
          rcases steps _ _ now with began | ⟨before, continues⟩
          · refine ⟨count, event, by omega, here, began, ?_⟩
            intro between later after past
            omega
          · obtain ⟨index, first, earlier, found, began, kept⟩ := inductionHypothesis before
            refine ⟨index, first, by omega, found, began, ?_⟩
            intro between later after past atBetween
            by_cases last : between = count
            · subst last
              rw [here] at atBetween
              obtain rfl := Option.some.inj atBetween
              exact continues
            · exact kept between later after (by omega) atBetween

/-- What holds after a run that did not start with it has held ever since some
event brought it about. -/
theorem run_since_kept
    (step : σ → ε → σ)
    (state : σ)
    (events : List ε)
    (holds : σ → Prop)
    (begins : σ → ε → Prop)
    (steps : ∀ state event, holds (step state event) → begins state event ∨ holds state)
    (start : ¬holds state)
    (count : Nat)
    (inside : count ≤ events.length)
    (now : holds (run step state (events.take count))) :
    ∃ index event, index < count ∧ events[index]? = some event ∧
      begins (run step state (events.take index)) event ∧
      ∀ between, index < between → between ≤ count →
        holds (run step state (events.take between)) := by
  induction count with
  | zero => exact absurd now start
  | succ count inductionHypothesis =>
      have here : events[count]? = some events[count] := List.getElem?_eq_getElem inside
      have reached := now
      rw [run_take_succ step state here] at reached
      rcases steps _ _ reached with began | before
      · refine ⟨count, events[count], by omega, here, began, ?_⟩
        intro between after atMost
        have last : between = count + 1 := by omega
        rwa [last]
      · obtain ⟨index, event, earlier, found, began, kept⟩ :=
          inductionHypothesis (by omega) before
        refine ⟨index, event, by omega, found, began, ?_⟩
        intro between after atMost
        rcases Nat.lt_or_eq_of_le atMost with within | last
        · exact kept between after (by omega)
        · rwa [last]

/-- The lists of events that a labelled transition relation admits between two
ghost states. -/
inductive Trace (allow : γ → ε → γ → Prop) : γ → List ε → γ → Prop
  | nil (ghost : γ) : Trace allow ghost [] ghost
  | cons {ghost middle final : γ} {event : ε} {events : List ε} :
      allow ghost event middle →
      Trace allow middle events final →
      Trace allow ghost (event :: events) final

namespace Trace

variable {allow : γ → ε → γ → Prop}

/-- A trace of a concatenation passes through a state between the parts. -/
theorem split
    {ghost final : γ}
    {first second : List ε}
    (trace : Trace allow ghost (first ++ second) final) :
    ∃ middle, Trace allow ghost first middle ∧ Trace allow middle second final := by
  induction first generalizing ghost with
  | nil => exact ⟨ghost, .nil ghost, trace⟩
  | cons event events inductionHypothesis =>
      cases trace with
      | cons allowed rest =>
          obtain ⟨middle, front, back⟩ := inductionHypothesis rest
          exact ⟨middle, .cons allowed front, back⟩

/-- Traces follow each other. -/
theorem append
    {ghost middle final : γ}
    {first second : List ε}
    (front : Trace allow ghost first middle)
    (back : Trace allow middle second final) :
    Trace allow ghost (first ++ second) final := by
  induction front with
  | nil ghost => exact back
  | cons allowed _ inductionHypothesis => exact .cons allowed (inductionHypothesis back)

/-- A trace is one of another relation in the images of its ghost states, where the
other relation admits the image of every admitted event. -/
theorem map
    {other : δ → ε → δ → Prop}
    (image : γ → δ)
    (preserved : ∀ {ghost event next}, allow ghost event next →
      other (image ghost) event (image next))
    {ghost final : γ}
    {events : List ε}
    (trace : Trace allow ghost events final) :
    Trace other (image ghost) events (image final) := by
  induction trace with
  | nil ghost => exact .nil (image ghost)
  | cons allowed _ inductionHypothesis => exact .cons (preserved allowed) inductionHypothesis

/-- A trace whose events satisfy a condition is a trace of the relation that
asks for it. -/
theorem restrict
    {condition : ε → Prop}
    {ghost final : γ}
    {events : List ε}
    (trace : Trace allow ghost events final)
    (satisfied : ∀ event ∈ events, condition event) :
    Trace (fun ghost event next => allow ghost event next ∧ condition event)
      ghost events final := by
  induction trace with
  | nil ghost => exact .nil ghost
  | cons allowed _ inductionHypothesis =>
      obtain ⟨first, rest⟩ := List.forall_mem_cons.mp satisfied
      exact .cons ⟨allowed, first⟩ (inductionHypothesis rest)

/-- A property of ghost states that every admitted event preserves holds at the
end of every trace. -/
theorem invariant
    (holds : γ → Prop)
    (preserved : ∀ {ghost event next}, allow ghost event next → holds ghost → holds next)
    {ghost final : γ}
    {events : List ε}
    (trace : Trace allow ghost events final)
    (start : holds ghost) :
    holds final := by
  induction trace with
  | nil ghost => exact start
  | cons allowed _ inductionHypothesis =>
      exact inductionHypothesis (preserved allowed start)

/-- The simulation rule: a relation between ghost states and machine states
that one admitted event preserves is preserved by the whole trace. -/
theorem simulation
    (step : σ → ε → σ)
    (relates : γ → σ → Prop)
    (preserved : ∀ {ghost event next state},
      allow ghost event next → relates ghost state → relates next (step state event))
    {ghost final : γ}
    {state : σ}
    {events : List ε}
    (trace : Trace allow ghost events final)
    (start : relates ghost state) :
    relates final (run step state events) := by
  induction trace generalizing state with
  | nil ghost => exact start
  | cons allowed _ inductionHypothesis =>
      exact inductionHypothesis (preserved allowed start)

end Trace

/-! ## Runs that can fail -/

/-- What succeeds under a function has succeeded before. -/
theorem exists_of_map_eq_ok
    {f : α → β}
    {result : Except ε α}
    {value : β}
    (mapped : result.map f = .ok value) :
    ∃ inner, result = .ok inner ∧ f inner = value := by
  cases result with
  | error error => cases mapped
  | ok inner => exact ⟨inner, rfl, Except.ok.inj mapped⟩

/-- What fails under a function has failed before. -/
theorem eq_error_of_map_eq_error
    {f : α → β}
    {result : Except ε α}
    {failure : ε}
    (mapped : result.map f = .error failure) :
    result = .error failure := by
  cases result with
  | error error => exact congrArg _ (Except.error.inj mapped)
  | ok inner => cases mapped

/-- Two steps that succeed have both succeeded. -/
theorem exists_of_bind_eq_ok
    {f : α → Except ε β}
    {result : Except ε α}
    {value : β}
    (bound : result >>= f = .ok value) :
    ∃ inner, result = .ok inner ∧ f inner = .ok value := by
  cases result with
  | error error => cases bound
  | ok inner => exact ⟨inner, rfl, bound⟩

/-- A run fails as the first of its steps that fails, in the state that the
steps before it reach. -/
theorem foldlM_eq_error_iff
    {step : σ → α → Except ε σ}
    {state : σ}
    {items : List α}
    {failure : ε} :
    items.foldlM step state = .error failure ↔
      ∃ before item after middle, items = before ++ item :: after ∧
        before.foldlM step state = .ok middle ∧ step middle item = .error failure := by
  induction items generalizing state with
  | nil =>
      refine iff_of_false (fun fails => by cases fails) ?_
      rintro ⟨before, item, after, middle, split, -⟩
      simp at split
  | cons first items inductionHypothesis =>
      rw [List.foldlM_cons]
      constructor
      · intro fails
        cases head : step state first with
        | error other =>
            rw [head] at fails
            cases fails
            exact ⟨[], first, items, state, rfl, rfl, head⟩
        | ok next =>
            rw [head] at fails
            obtain ⟨before, item, after, middle, rfl, reaches, failed⟩ :=
              inductionHypothesis.mp fails
            refine ⟨first :: before, item, after, middle, rfl, ?_, failed⟩
            rw [List.foldlM_cons, head]
            exact reaches
      · rintro ⟨before, item, after, middle, split, reaches, failed⟩
        cases before with
        | nil =>
            obtain ⟨rfl, rfl⟩ := List.cons.inj split
            cases reaches
            rw [failed]
            rfl
        | cons other before =>
            obtain ⟨rfl, rfl⟩ := List.cons.inj split
            rw [List.foldlM_cons] at reaches
            obtain ⟨next, head, rest⟩ := exists_of_bind_eq_ok reaches
            rw [head]
            exact inductionHypothesis.mpr ⟨before, item, after, middle, rfl, rest, failed⟩

/-- A property that every step preserves when it succeeds holds at the end of a
run that succeeds. -/
theorem foldlM_invariant
    {step : σ → α → Except ε σ}
    (holds : σ → Prop)
    (preserved : ∀ state item next, step state item = .ok next → holds state → holds next)
    {state final : σ}
    {items : List α}
    (reaches : items.foldlM step state = .ok final)
    (start : holds state) :
    holds final := by
  induction items generalizing state with
  | nil =>
      cases reaches
      exact start
  | cons item items inductionHypothesis =>
      rw [List.foldlM_cons] at reaches
      obtain ⟨next, head, rest⟩ := exists_of_bind_eq_ok reaches
      exact inductionHypothesis rest (preserved state item next head start)

end Foundations
