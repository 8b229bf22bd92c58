import EbpfHub.Foundations.Run

/-!
# Interleavings of independent events

Every event has an owner and, in the state that it finds, touches some
resources.  If events of different owners commute whenever they touch no common
resource, then the state that a run reaches is determined by the order of the
events of each owner and of those that touch each resource.
-/

namespace Foundations

section Touching

variable (step : σ → ε → σ) (touches : σ → ε → ρ → Prop)
variable [∀ state event resource, Decidable (touches state event resource)]

/-- The events of a run that touch a resource. -/
def touching (resource : ρ) : σ → List ε → List ε
  | _, [] => []
  | state, event :: events =>
      (if touches state event resource then [event] else []) ++
        touching resource (step state event) events

@[simp] theorem touching_nil (resource : ρ) (state : σ) :
    touching step touches resource state [] = [] := rfl

theorem touching_cons
    (resource : ρ)
    (state : σ)
    (event : ε)
    (events : List ε) :
    touching step touches resource state (event :: events) =
      (if touches state event resource then [event] else []) ++
        touching step touches resource (step state event) events := rfl

theorem touching_append
    (resource : ρ)
    (state : σ)
    (first second : List ε) :
    touching step touches resource state (first ++ second) =
      touching step touches resource state first ++
        touching step touches resource (run step state first) second := by
  induction first generalizing state with
  | nil => rfl
  | cons event first inductionHypothesis =>
      rw [List.cons_append, touching_cons, inductionHypothesis, touching_cons, List.append_assoc,
        run_cons]

/-- The events that touch a resource are events of the run. -/
theorem mem_of_mem_touching
    {resource : ρ}
    {state : σ}
    {event : ε}
    {events : List ε}
    (member : event ∈ touching step touches resource state events) :
    event ∈ events := by
  induction events generalizing state with
  | nil => cases member
  | cons first events inductionHypothesis =>
      rcases List.mem_append.mp member with here | later
      · split at here
        · rw [List.mem_singleton.mp here]
          exact List.mem_cons_self
        · cases here
      · exact List.mem_cons_of_mem _ (inductionHypothesis later)

end Touching

/-- If two lists have the same events of each owner in the same order, the first
event of one is preceded by events of other owners only in the other, and
without it they still have the same events of each owner. -/
theorem exists_split_of_same_owners
    [DecidableEq ι]
    {owner : ε → ι}
    {event : ε}
    {left right : List ε}
    (sameOwners : ∀ owned, (event :: left).filter (fun event => owner event = owned) =
      right.filter fun event => owner event = owned) :
    ∃ before after, right = before ++ event :: after ∧
      (∀ other ∈ before, owner other ≠ owner event) ∧
      ∀ owned, left.filter (fun event => owner event = owned) =
        (before ++ after).filter fun event => owner event = owned := by
  have first := sameOwners (owner event)
  rw [List.filter_cons_of_pos (by simp), eq_comm, List.filter_eq_cons_iff] at first
  obtain ⟨before, after, rfl, notOwned, _, rest⟩ := first
  refine ⟨before, after, rfl, ?_, ?_⟩
  · intro other member same
    exact notOwned other member (by simpa using same)
  · intro owned
    have same := sameOwners owned
    by_cases own : owner event = owned
    · subst own
      have none : before.filter (fun other => owner other = owner event) = [] :=
        List.filter_eq_nil_iff.mpr notOwned
      rw [List.filter_append, none, List.nil_append]
      exact rest.symm
    · rw [List.filter_cons_of_neg (by simpa using own), List.filter_append,
        List.filter_cons_of_neg (by simpa using own), ← List.filter_append] at same
      exact same

/-- Events of different owners neither change what the other touches nor, if
they touch no common resource, does their order matter, in the states that
satisfy an invariant. -/
structure Independence
    (step : σ → ε → σ)
    (owner : ε → ι)
    (touches : σ → ε → ρ → Prop)
    (holds : σ → Prop) : Prop where
  preserved : ∀ {state} event, holds state → holds (step state event)
  touches_step : ∀ {first second} state resource, owner first ≠ owner second →
    (touches (step state first) second resource ↔ touches state second resource)
  commutes : ∀ {state first second}, holds state → owner first ≠ owner second →
    (∀ resource, touches state first resource → ¬touches state second resource) →
    step (step state first) second = step (step state second) first

namespace Independence

variable {step : σ → ε → σ} {owner : ε → ι} {touches : σ → ε → ρ → Prop} {holds : σ → Prop}
variable [∀ state event resource, Decidable (touches state event resource)]

/-- An event can be moved before events of other owners that touch none of its
resources. -/
theorem move_front
    (independence : Independence step owner touches holds)
    {state : σ}
    (start : holds state)
    {event : ε}
    {before : List ε}
    (others : ∀ other ∈ before, owner other ≠ owner event)
    (apart : ∀ resource, touches state event resource →
      touching step touches resource state before = [])
    (after : List ε) :
    run step state (before ++ event :: after) = run step state (event :: (before ++ after)) ∧
      ∀ resource, touching step touches resource state (before ++ event :: after) =
        touching step touches resource state (event :: (before ++ after)) := by
  induction before generalizing state with
  | nil => exact ⟨rfl, fun _ => rfl⟩
  | cons other before inductionHypothesis =>
      obtain ⟨different, rest⟩ := List.forall_mem_cons.mp others
      have untouched : ∀ resource, touches state event resource →
          ¬touches state other resource ∧
            touching step touches resource (step state other) before = [] := by
        intro resource touched
        obtain ⟨here, later⟩ := List.append_eq_nil_iff.mp (apart resource touched)
        refine ⟨fun byOther => ?_, later⟩
        rw [if_pos byOther] at here
        cases here
      obtain ⟨sameState, sameTouching⟩ := inductionHypothesis
        (independence.preserved other start) rest fun resource touched =>
          (untouched resource
            ((independence.touches_step state resource different).mp touched)).2
      have swap : step (step state other) event = step (step state event) other :=
        independence.commutes start different fun resource byOther touched =>
          (untouched resource touched).1 byOther
      refine ⟨?_, fun resource => ?_⟩
      · rw [List.cons_append, run_cons, sameState, run_cons, swap]
        rfl
      · rw [List.cons_append, touching_cons, sameTouching, touching_cons, swap, touching_cons,
          List.cons_append, touching_cons, ← List.append_assoc, ← List.append_assoc]
        congr 1
        simp only [independence.touches_step state resource different,
          independence.touches_step state resource (Ne.symm different)]
        by_cases touched : touches state event resource
        · simp [(untouched resource touched).1]
        · simp [touched]

/-- Two runs reach the same state if they have the same events of each owner in
the same order and the same events that touch each resource in the same order. -/
theorem run_eq_of_same_orders
    [DecidableEq ι]
    (independence : Independence step owner touches holds)
    {state : σ}
    (start : holds state)
    {left right : List ε}
    (sameOwners : ∀ owned, left.filter (fun event => owner event = owned) =
      right.filter fun event => owner event = owned)
    (sameTouching : ∀ resource, touching step touches resource state left =
      touching step touches resource state right) :
    run step state left = run step state right := by
  induction left generalizing state right with
  | nil =>
      cases right with
      | nil => rfl
      | cons event right =>
          have nothing := sameOwners (owner event)
          simp at nothing
  | cons event left inductionHypothesis =>
      obtain ⟨before, after, rfl, others, rest⟩ := exists_split_of_same_owners sameOwners
      have apart : ∀ resource, touches state event resource →
          touching step touches resource state before = [] := by
        intro resource touched
        have same := sameTouching resource
        rw [touching_append] at same
        cases early : touching step touches resource state before with
        | nil => rfl
        | cons other _ =>
            rw [early, touching_cons, if_pos touched] at same
            obtain ⟨rfl, _⟩ := List.cons.inj same
            have inside : event ∈ before := by
              apply mem_of_mem_touching step touches
              rw [early]
              exact List.mem_cons_self
            exact absurd rfl (others event inside)
      obtain ⟨moved, movedTouching⟩ := independence.move_front start others apart after
      rw [moved, run_cons, run_cons]
      apply inductionHypothesis (independence.preserved event start) rest
      intro resource
      have same := sameTouching resource
      rw [movedTouching, touching_cons, touching_cons] at same
      exact List.append_cancel_left same

end Independence

end Foundations
