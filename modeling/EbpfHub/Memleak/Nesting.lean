import EbpfHub.Memleak.Calls

/-!
# Nested calls

A traced call may make traced calls of its own before it returns.  One entry of
`sizes` per thread stands for the whole stack of open calls: the first entry
fills it and the first exit empties it, so the record goes to the pointer that
the first exit returns.
-/

namespace EbpfHub
namespace Memleak

open Foundations

/-- The open calls of each thread, the innermost first. -/
abbrev Nesting := U32 → List Call

namespace Nesting

/-- No call is open. -/
def none : Nesting := fun _ => []

/-- The events of well nested calls: an entry opens a call and an exit closes
the innermost one. -/
inductive Step : Nesting → Event → Nesting → Prop
  | enter (calls : Nesting) (ctx : Context) (call : Call) :
      Step calls ⟨ctx, .enter call⟩ (Function.update calls ctx.tid (call :: calls ctx.tid))
  | exit (calls : Nesting) (ctx : Context) (call : Call) (outer : List Call) :
      calls ctx.tid = call :: outer →
      Step calls ⟨ctx, .exit call.fn⟩ (Function.update calls ctx.tid outer)
  | release (calls : Nesting) (ctx : Context) (call : Release) :
      Step calls ⟨ctx, .release call⟩ calls

/-- The steps after which a thread is still inside some call. -/
def StepInside (tid : U32) (before : Nesting) (event : Event) (after : Nesting) : Prop :=
  Step before event after ∧ after tid ≠ []

end Nesting

/-- An outermost call in a run of well nested calls: the events before it, its
entry, the events until it returns (its thread stays inside it), and its exit. -/
structure OutermostCall where
  before : List Event
  ctx : Context
  call : Call
  during : List Event
  exitCtx : Context
  calls : Nesting
  inner : Nesting
  nestedBefore : Trace Nesting.Step Nesting.none before calls
  outermost : calls ctx.tid = []
  nestedDuring : Trace (Nesting.StepInside ctx.tid)
    (Function.update calls ctx.tid [call]) during inner
  closing : inner ctx.tid = [call]
  sameThread : exitCtx.tid = ctx.tid

namespace OutermostCall

/-- The exit of the call. -/
def exitEvent (outermost : OutermostCall) : Event :=
  ⟨outermost.exitCtx, .exit outermost.call.fn⟩

/-- The events from the entry of the call on. -/
def suffix (outermost : OutermostCall) : List Event :=
  ⟨outermost.ctx, .enter outermost.call⟩ :: (outermost.during ++ [outermost.exitEvent])

/-- The events up to and including the exit of the call. -/
def events (outermost : OutermostCall) : List Event :=
  outermost.before ++ outermost.suffix

/-- The program receives the block at the address. -/
def Returns (outermost : OutermostCall) (address : U64) : Prop :=
  outermost.call.ReturnsBlock outermost.exitCtx address

/-- The returned block is recorded with what its own call's entry captured. -/
def Attributed (outermost : OutermostCall) (maps : Maps) : Prop :=
  ∀ address, outermost.Returns address →
    ∃ info, maps.allocs.lookup address = some info ∧
      info.size = outermost.call.size ∧ info.stackId = outermost.ctx.stackId

end OutermostCall

/-! ## The condition for a correct attribution -/

/-- No event of the list touches the address. -/
def Undisturbed (rodata : Rodata) (address : U64) : Maps → List Event → Prop :=
  Along (step rodata) fun maps event =>
    ¬event.Touches (maps.tables.threads event.tid) address

/-- The first exit of the thread that reaches `gen_alloc_exit2` returns the
address, and no later event of the list touches it. -/
def FirstExitReturns (rodata : Rodata) (tid : U32) (address : U64) : Maps → List Event → Prop
  | _, [] => False
  | maps, event :: events =>
      match event.exitAddress (maps.tables.threads event.tid) with
      | none => FirstExitReturns rodata tid address (step rodata maps event) events
      | some returned =>
          if event.tid = tid then
            returned = address ∧ Undisturbed rodata address (step rodata maps event) events
          else FirstExitReturns rodata tid address (step rodata maps event) events

/-- An address that nobody touches keeps its record. -/
theorem lookup_run_of_undisturbed
    {rodata : Rodata}
    {address : U64}
    {maps : Maps}
    {events : List Event}
    (undisturbed : Undisturbed rodata address maps events) :
    (run (step rodata) maps events).tables.allocs address = maps.tables.allocs address := by
  apply undisturbed.invariant fun after => after.tables.allocs address = maps.tables.allocs address
  · intro current event untouched kept
    obtain ⟨outcome, content, _⟩ := step_refines rodata current event
    rw [content, ← kept]
    exact Tables.step_allocs_of_not_touches rodata outcome current.tables untouched
  · rfl

/-- What fills the slot of a thread is recorded under the address that the
thread's first exit returns. -/
theorem lookup_run_of_firstExitReturns
    {rodata : Rodata}
    {tid : U32}
    {address : U64}
    (recordable : Recordable address)
    {sinfo : SizeInfo}
    {maps : Maps}
    {events : List Event}
    (occupied : (maps.tables.threads tid).slot = some sinfo)
    (noFailure : (run (step rodata) maps events).failedUpdates = 0)
    (first : FirstExitReturns rodata tid address maps events) :
    ∃ ktime, (run (step rodata) maps events).tables.allocs address =
      some (allocInfoOf sinfo ktime) := by
  induction events generalizing maps with
  | nil => exact False.elim first
  | cons event events inductionHypothesis =>
      have content := tables_step_of_noFailure (noFailure_first noFailure)
      rw [run_cons] at noFailure ⊢
      have untouchedThread : event.tid ≠ tid →
          ((step rodata maps event).tables.threads tid).slot = some sinfo := by
        intro different
        rw [threads_step_of_ne rodata maps (Ne.symm different)]
        exact occupied
      unfold FirstExitReturns at first
      cases exits : event.exitAddress (maps.tables.threads event.tid) with
      | none =>
          rw [exits] at first
          apply inductionHypothesis _ noFailure first
          by_cases same : event.tid = tid
          · subst same
            rw [content, Tables.step_threads, Function.update_self]
            exact Event.next_slot_of_no_exitAddress occupied exits
          · exact untouchedThread same
      | some returned =>
          rw [exits] at first
          dsimp only at first
          split at first
          · next same =>
            subst same
            obtain ⟨rfl, undisturbed⟩ := first
            refine ⟨event.ctx.ktime, ?_⟩
            rw [lookup_run_of_undisturbed undisturbed, content,
              Tables.step_exit_allocs _ _ _ exits, occupied]
            simp [recordable, Outcome.success]
          · next different =>
            exact inductionHypothesis (untouchedThread different) noFailure first

/-- The settings of `main` accept every call. -/
theorem Rodata.main_accepts (pageSize size ktime : U64) :
    (Rodata.main pageSize).Accepts size ktime := by
  apply Rodata.accepts_of_bounds rfl
  · simp [Rodata.main]
  · have := size.isLt
    simp only [Rodata.main, BitVec.reduceNeg, BitVec.toNat_ofNat]
    omega

/-- A returned block is recorded with the data of its own call when the entry
of the call finds no entry in `sizes` and the first exit of the thread after it
returns that very block, which nobody touches until the call returns. -/
theorem outermost_call_attributed
    (pageSize : U64)
    (outermost : OutermostCall)
    (noFailure : (runEvents (Rodata.main pageSize) outermost.events).failedUpdates = 0)
    (free : (runEvents (Rodata.main pageSize) outermost.before).sizes.lookup
      outermost.ctx.tid = none)
    (first : ∀ address, outermost.Returns address →
      FirstExitReturns (Rodata.main pageSize) outermost.ctx.tid address
        (runEvents (Rodata.main pageSize) outermost.before) outermost.suffix) :
    outermost.Attributed (runEvents (Rodata.main pageSize) outermost.events) := by
  intro address returned
  have recordable : Recordable address := returned.2.1
  have firstExit := first address returned
  unfold OutermostCall.events runEvents at noFailure ⊢
  unfold runEvents at free firstExit
  rw [run_append] at noFailure ⊢
  generalize run (step (Rodata.main pageSize)) Maps.empty outermost.before = maps at *
  unfold OutermostCall.suffix at noFailure firstExit ⊢
  have content := tables_step_of_noFailure (noFailure_first noFailure)
  have slot : (maps.tables.threads outermost.ctx.tid).slot = none := free
  have filled : ((step (Rodata.main pageSize) maps
      ⟨outermost.ctx, .enter outermost.call⟩).tables.threads outermost.ctx.tid).slot =
        some (captureSizeInfo outermost.call.size outermost.ctx.stackId outermost.ctx.sp
          outermost.ctx.readUser) := by
    rw [content]
    simp [Event.tid, Event.next, slot, Outcome.success, captureOf, Rodata.main_accepts]
  obtain ⟨ktime, recorded⟩ :=
    lookup_run_of_firstExitReturns recordable filled noFailure firstExit
  refine ⟨_, recorded, ?_, ?_⟩
  · exact captureSizeInfo_size _ _ _ _
  · exact captureSizeInfo_stackId _ _ _ _

/-- `operator new` forwards to `malloc`, which returns the same block. -/
def forwardedNew : OutermostCall where
  before := []
  ctx := .quiet 1 0
  call := .operatorNew 16
  during := [⟨.quiet 1 0, .enter (.malloc 16)⟩, ⟨.quiet 1 4096, .exit .malloc⟩]
  exitCtx := .quiet 1 4096
  calls := Nesting.none
  inner := _
  nestedBefore := .nil _
  outermost := rfl
  nestedDuring :=
    .cons ⟨.enter _ _ _, by decide⟩
      (.cons ⟨.exit _ _ (.malloc 16) [.operatorNew 16] rfl, by decide⟩ (.nil _))
  closing := by decide
  sameThread := rfl

theorem outermost_call_attributed_forwardedNew :
    forwardedNew.Attributed (runEvents (Rodata.main 4096) forwardedNew.events) := by
  apply outermost_call_attributed
  · decide
  · decide
  · intro address returned
    obtain rfl := Option.some.inj returned.1
    exact ⟨rfl, ⟨by simp [Event.Touches, Event.released]; decide, trivial⟩⟩

/-- A large `malloc` takes its memory from `mmap`, which returns the start of
the mapping and not the block. -/
def mappingMalloc : OutermostCall where
  before := []
  ctx := .quiet 1 0
  call := .malloc 200000
  during := [⟨.quiet 1 0, .enter (.mmap 0 204800)⟩, ⟨.quiet 1 4096, .exit .mmap⟩]
  exitCtx := .quiet 1 4112
  calls := Nesting.none
  inner := _
  nestedBefore := .nil _
  outermost := rfl
  nestedDuring :=
    .cons ⟨.enter _ _ _, by decide⟩
      (.cons ⟨.exit _ _ (.mmap 0 204800) [.malloc 200000] rfl, by decide⟩ (.nil _))
  closing := by decide
  sameThread := rfl

/-- The size of the `malloc` is recorded for the mapping, and its own block is
not recorded at all. -/
theorem mappingMalloc_not_attributed :
    ¬∀ (pageSize : U64) (outermost : OutermostCall),
      (runEvents (Rodata.main pageSize) outermost.events).failedUpdates = 0 →
        outermost.Attributed (runEvents (Rodata.main pageSize) outermost.events) := by
  intro general
  have noFailure : (runEvents (Rodata.main 4096) mappingMalloc.events).failedUpdates = 0 := by
    decide
  obtain ⟨info, found, _⟩ := general 4096 mappingMalloc noFailure 4112
    ⟨rfl, by decide, fun memalign => absurd rfl memalign⟩
  have missing : (runEvents (Rodata.main 4096) mappingMalloc.events).allocs.lookup 4112 =
      none := by
    decide
  rw [missing] at found
  cases found

end Memleak
end EbpfHub
