import EbpfHub.Memleak.Handlers

/-!
# What one event does to the maps

The maps seen as functions.  An event has two effects: on the entries that the
maps `sizes` and `memptrs` hold for its thread, and on one address of `allocs`
with the statistics of that record's stack.  Whether an update found room is an
outcome that the abstract step takes as given, so that it needs no size limits.
-/

namespace EbpfHub
namespace Memleak

open Foundations

/-- The entries of `sizes` and `memptrs` for one thread. -/
structure ThreadState where
  slot : Option SizeInfo
  memptr : Option U64

/-- A thread without entries. -/
def ThreadState.idle : ThreadState := ⟨none, none⟩

/-- The content of the maps. -/
@[ext] structure Tables where
  threads : U32 → ThreadState
  allocs : U64 → Option AllocInfo
  combinedAllocs : U64 → Option CombinedAllocInfo

/-- The content of the maps without entries. -/
def Tables.empty : Tables where
  threads := fun _ => .idle
  allocs := fun _ => none
  combinedAllocs := fun _ => none

/-- The content of given maps. -/
def Maps.tables (maps : Maps) : Tables where
  threads := fun tid => ⟨maps.sizes.lookup tid, maps.memptrs.lookup tid⟩
  allocs := maps.allocs.lookup
  combinedAllocs := maps.combinedAllocs.lookup

@[simp] theorem Maps.tables_empty : Maps.empty.tables = Tables.empty := by
  simp only [Maps.tables, Maps.empty, Tables.empty, ThreadState.idle,
    BoundedMap.lookup_empty, Tables.mk.injEq, true_and]
  constructor <;> (funext key; exact BoundedMap.lookup_empty key)

/-- Which updates of an event succeed, if it attempts them. -/
structure Outcome where
  sizes : Bool
  allocs : Bool
  combinedAllocs : Bool
  memptrs : Bool

/-- Every update succeeds. -/
def Outcome.success : Outcome := ⟨true, true, true, true⟩

/-! ## The events in terms of their two effects -/

/-- The filter by size and the sampling of `gen_alloc_enter`. -/
def Rodata.Accepts (rodata : Rodata) (size ktime : U64) : Prop :=
  ¬(size < rodata.minSize ∨ size > rodata.maxSize) ∧
    ¬(rodata.sampleRate > 1 ∧ ktime % rodata.sampleRate ≠ 0)

instance (rodata : Rodata) (size ktime : U64) : Decidable (rodata.Accepts size ktime) :=
  inferInstanceAs (Decidable (_ ∧ _))

/-- What `gen_alloc_enter` would store for a call of the given size. -/
def captureOf (rodata : Rodata) (ctx : Context) (size : U64) : Option SizeInfo :=
  if rodata.Accepts size ctx.ktime then
    some (captureSizeInfo size ctx.stackId ctx.sp ctx.readUser)
  else none

namespace Event

/-- The address that the event passes to `gen_free_enter`. -/
def released (event : Event) : Option U64 :=
  match event.probe with
  | .enter call => call.released
  | .exit _ => none
  | .release call => some call.address

/-- The address that the event passes to `gen_alloc_exit2`. -/
def exitAddress (event : Event) (thread : ThreadState) : Option U64 :=
  match event.probe with
  | .enter _ => none
  | .exit fn =>
      if fn = .posixMemalign then thread.memptr.bind event.ctx.readUser
      else some event.ctx.rc
  | .release _ => none

/-- What the event would store in an empty slot of its thread. -/
def captured (rodata : Rodata) (event : Event) : Option SizeInfo :=
  match event.probe with
  | .enter call => captureOf rodata event.ctx call.size
  | .exit _ => none
  | .release _ => none

/-- The entries of the thread after the event. -/
def next
    (rodata : Rodata)
    (event : Event)
    (outcome : Outcome)
    (thread : ThreadState) : ThreadState :=
  match event.probe with
  | .enter call =>
      { slot := thread.slot.or
          (if outcome.sizes then captureOf rodata event.ctx call.size else none)
        memptr := if outcome.memptrs then call.memptr.or thread.memptr else thread.memptr }
  | .exit fn =>
      { slot := if (event.exitAddress thread).isSome then none else thread.slot
        memptr := if fn = .posixMemalign then none else thread.memptr }
  | .release _ => thread

end Event

/-- An address that is recorded when it is returned. -/
def Recordable (address : U64) : Prop := address ≠ 0 ∧ address ≠ mapFailed

instance (address : U64) : Decidable (Recordable address) :=
  inferInstanceAs (Decidable (_ ∧ _))

/-- What an event does to `allocs`. -/
inductive AllocAction
  | keep
  | release (address : U64)
  | insert (address : U64) (info : AllocInfo)

/-- The action of an event, given the entries of its thread. -/
def Event.action (event : Event) (thread : ThreadState) : AllocAction :=
  match event.released with
  | some address => .release address
  | none =>
      match event.exitAddress thread, thread.slot with
      | some address, some sinfo =>
          if Recordable address then .insert address (allocInfoOf sinfo event.ctx.ktime)
          else .keep
      | _, _ => .keep

/-- What `gen_alloc_exit2` does to `allocs`, given the slot it finds. -/
def exitAction (ctx : Context) (address : U64) (slot : Option SizeInfo) : AllocAction :=
  match slot with
  | none => .keep
  | some sinfo =>
      if Recordable address then .insert address (allocInfoOf sinfo ctx.ktime) else .keep

/-- The action of an event that calls `gen_alloc_exit2`. -/
theorem Event.action_of_exitAddress
    {event : Event}
    {thread : ThreadState}
    {address : U64}
    (exits : event.exitAddress thread = some address) :
    event.action thread = exitAction event.ctx address thread.slot := by
  have kept : event.released = none := by
    unfold Event.exitAddress at exits
    unfold Event.released
    split at exits <;> simp_all
  unfold Event.action exitAction
  rw [kept, exits]
  cases thread.slot <;> rfl

/-- An exit that does not reach `gen_alloc_exit2` leaves `allocs` alone. -/
theorem Event.action_of_no_exitAddress
    {event : Event}
    {thread : ThreadState}
    (kept : event.released = none)
    (noExit : event.exitAddress thread = none) :
    event.action thread = .keep := by
  unfold Event.action
  rw [kept, noExit]

/-- A table without the entry of an address, if one is given. -/
def forget (released : Option U64) (table : U64 → Option β) : U64 → Option β :=
  match released with
  | none => table
  | some address => Function.update table address none

@[simp] theorem forget_none (table : U64 → Option β) : forget none table = table := rfl

theorem forget_of_ne
    {released : Option U64}
    {address : U64}
    (different : released ≠ some address)
    (table : U64 → Option β) :
    forget released table address = table address := by
  cases released with
  | none => rfl
  | some other =>
      apply Function.update_of_ne
      rintro rfl
      exact different rfl

@[simp] theorem forget_self (address : U64) (table : U64 → Option β) :
    forget (some address) table address = none := by
  simp [forget]

/-- What is left after forgetting was there before. -/
theorem of_forget_eq_some
    {released : Option U64}
    {table : U64 → Option β}
    {address : U64}
    {entry : β}
    (found : forget released table address = some entry) :
    released ≠ some address ∧ table address = some entry := by
  by_cases same : released = some address
  · subst same
    rw [forget_self] at found
    cases found
  · exact ⟨same, by rwa [forget_of_ne same] at found⟩

namespace Tables

/-- Change the entries of one thread. -/
def setThread (tables : Tables) (tid : U32) (thread : ThreadState) : Tables :=
  { tables with threads := Function.update tables.threads tid thread }

/-- `update_statistics_add` on the content of `combined_allocs`. -/
def addStatistics
    (outcome : Outcome)
    (statistics : U64 → Option CombinedAllocInfo)
    (key sz : U64) : U64 → Option CombinedAllocInfo :=
  match statistics key with
  | some info => Function.update statistics key (some (info.add sz))
  | none =>
      if outcome.combinedAllocs then
        Function.update statistics key (some (CombinedAllocInfo.initial.add sz))
      else statistics

/-- `update_statistics_del` on the content of `combined_allocs`. -/
def delStatistics
    (statistics : U64 → Option CombinedAllocInfo)
    (key sz : U64) : U64 → Option CombinedAllocInfo :=
  Function.update statistics key ((statistics key).map (·.del sz))

/-- Carry out an action on `allocs` and the statistics. -/
def apply (rodata : Rodata) (outcome : Outcome) (tables : Tables) : AllocAction → Tables
  | .keep => tables
  | .release address =>
      match tables.allocs address with
      | none => tables
      | some info =>
          { tables with
            allocs := Function.update tables.allocs address none
            combinedAllocs :=
              if rodata.combinedOnly then
                delStatistics tables.combinedAllocs (statisticsKey info.stackId) info.size
              else tables.combinedAllocs }
  | .insert address info =>
      { tables with
        allocs :=
          if outcome.allocs then Function.update tables.allocs address (some info)
          else tables.allocs
        combinedAllocs :=
          if rodata.combinedOnly then
            addStatistics outcome tables.combinedAllocs (statisticsKey info.stackId) info.size
          else tables.combinedAllocs }

/-- The abstract step: the action on `allocs`, then the thread's entries. -/
def step (rodata : Rodata) (outcome : Outcome) (tables : Tables) (event : Event) : Tables :=
  (tables.apply rodata outcome (event.action (tables.threads event.tid))).setThread event.tid
    (event.next rodata outcome (tables.threads event.tid))

@[simp] theorem setThread_threads (tables : Tables) (tid : U32) (thread : ThreadState) :
    (tables.setThread tid thread).threads = Function.update tables.threads tid thread := rfl

@[simp] theorem setThread_allocs (tables : Tables) (tid : U32) (thread : ThreadState) :
    (tables.setThread tid thread).allocs = tables.allocs := rfl

@[simp] theorem setThread_combinedAllocs (tables : Tables) (tid : U32) (thread : ThreadState) :
    (tables.setThread tid thread).combinedAllocs = tables.combinedAllocs := rfl

@[simp] theorem setThread_self (tables : Tables) (tid : U32) :
    tables.setThread tid (tables.threads tid) = tables := by
  simp [setThread]

@[simp] theorem setThread_setThread
    (tables : Tables)
    (tid : U32)
    (first second : ThreadState) :
    (tables.setThread tid first).setThread tid second = tables.setThread tid second := by
  simp [setThread]

@[simp] theorem apply_threads
    (rodata : Rodata)
    (outcome : Outcome)
    (tables : Tables)
    (action : AllocAction) :
    (tables.apply rodata outcome action).threads = tables.threads := by
  cases action with
  | keep => rfl
  | release address =>
      simp only [apply]
      split <;> rfl
  | insert address info => rfl

@[simp] theorem apply_setThread_self
    (rodata : Rodata)
    (outcome : Outcome)
    (tables : Tables)
    (tid : U32)
    (action : AllocAction) :
    (tables.apply rodata outcome action).setThread tid (tables.threads tid) =
      tables.apply rodata outcome action := by
  rw [← apply_threads rodata outcome tables action, setThread_self]

@[simp] theorem apply_setThread
    (rodata : Rodata)
    (outcome : Outcome)
    (tables : Tables)
    (tid : U32)
    (thread : ThreadState)
    (action : AllocAction) :
    (tables.setThread tid thread).apply rodata outcome action =
      (tables.apply rodata outcome action).setThread tid thread := by
  cases action with
  | keep => rfl
  | release address =>
      simp only [apply, setThread_allocs]
      split <;> rfl
  | insert address info => rfl

@[simp] theorem apply_keep
    (rodata : Rodata)
    (outcome : Outcome)
    (tables : Tables) :
    tables.apply rodata outcome .keep = tables := rfl

/-- The allocations after a release. -/
@[simp] theorem apply_release_allocs
    (rodata : Rodata)
    (outcome : Outcome)
    (tables : Tables)
    (address : U64) :
    (tables.apply rodata outcome (.release address)).allocs =
      Function.update tables.allocs address none := by
  simp only [apply]
  split
  · next absent => exact (Function.update_eq_self_iff.mpr absent.symm).symm
  · rfl

@[simp] theorem apply_insert_allocs
    (rodata : Rodata)
    (outcome : Outcome)
    (tables : Tables)
    (address : U64)
    (info : AllocInfo) :
    (tables.apply rodata outcome (.insert address info)).allocs =
      if outcome.allocs then Function.update tables.allocs address (some info)
      else tables.allocs := rfl

@[simp] theorem step_threads
    (rodata : Rodata)
    (outcome : Outcome)
    (tables : Tables)
    (event : Event) :
    (tables.step rodata outcome event).threads =
      Function.update tables.threads event.tid
        (event.next rodata outcome (tables.threads event.tid)) := by
  simp [step]

theorem step_allocs
    (rodata : Rodata)
    (outcome : Outcome)
    (tables : Tables)
    (event : Event) :
    (tables.step rodata outcome event).allocs =
      (tables.apply rodata outcome (event.action (tables.threads event.tid))).allocs := rfl

/-- An event leaves the entries of other threads alone. -/
theorem step_threads_of_ne
    (rodata : Rodata)
    (outcome : Outcome)
    (tables : Tables)
    (event : Event)
    {tid : U32}
    (different : tid ≠ event.tid) :
    (tables.step rodata outcome event).threads tid = tables.threads tid := by
  rw [step_threads, Function.update_of_ne different]

/-- An entry keeps every allocation but the one that it gives up. -/
theorem step_enter_allocs
    (rodata : Rodata)
    (outcome : Outcome)
    (tables : Tables)
    (ctx : Context)
    (call : Call) :
    (tables.step rodata outcome ⟨ctx, .enter call⟩).allocs =
      forget call.released tables.allocs := by
  rw [step_allocs]
  cases released : call.released <;>
    simp [Event.action, Event.released, Event.exitAddress, released, forget]

/-- A release forgets its allocation. -/
theorem step_release_allocs
    (rodata : Rodata)
    (outcome : Outcome)
    (tables : Tables)
    (ctx : Context)
    (call : Release) :
    (tables.step rodata outcome ⟨ctx, .release call⟩).allocs =
      forget (some call.address) tables.allocs := by
  simp [step_allocs, Event.action, Event.released, forget]

/-- The allocations after an exit that reaches `gen_alloc_exit2`. -/
theorem step_exit_allocs
    (rodata : Rodata)
    (outcome : Outcome)
    (tables : Tables)
    {event : Event}
    {address : U64}
    (exits : event.exitAddress (tables.threads event.tid) = some address) :
    (tables.step rodata outcome event).allocs =
      match (tables.threads event.tid).slot with
      | none => tables.allocs
      | some sinfo =>
          if Recordable address ∧ outcome.allocs then
            Function.update tables.allocs address (some (allocInfoOf sinfo event.ctx.ktime))
          else tables.allocs := by
  rw [step_allocs, Event.action_of_exitAddress exits]
  unfold exitAction
  cases (tables.threads event.tid).slot with
  | none => rfl
  | some sinfo =>
      by_cases recordable : Recordable address <;> simp [recordable]

/-- An exit touches no address but the one it returns. -/
theorem step_exit_allocs_of_ne
    (rodata : Rodata)
    (outcome : Outcome)
    (tables : Tables)
    {event : Event}
    {address other : U64}
    (exits : event.exitAddress (tables.threads event.tid) = some address)
    (elsewhere : ¬(Recordable address ∧ other = address)) :
    (tables.step rodata outcome event).allocs other = tables.allocs other := by
  rw [step_exit_allocs rodata outcome tables exits]
  split
  · rfl
  · split
    · next inserted =>
        apply Function.update_of_ne
        rintro rfl
        exact elsewhere ⟨inserted.1, rfl⟩
    · rfl

end Tables

/-! ## The addresses that an event touches -/

/-- An event gives up the address, or returns it while its thread has an entry
in `sizes`. -/
def Event.Touches (event : Event) (thread : ThreadState) (address : U64) : Prop :=
  event.released = some address ∨
    event.exitAddress thread = some address ∧ thread.slot ≠ none

/-- An event changes no allocation that it does not touch. -/
theorem Tables.step_allocs_of_not_touches
    (rodata : Rodata)
    (outcome : Outcome)
    (tables : Tables)
    {event : Event}
    {address : U64}
    (untouched : ¬event.Touches (tables.threads event.tid) address) :
    (tables.step rodata outcome event).allocs address = tables.allocs address := by
  obtain ⟨kept, notReturned⟩ := not_or.mp untouched
  rw [step_allocs, Event.action]
  cases released : event.released with
  | some other =>
      rw [apply_release_allocs]
      apply Function.update_of_ne
      rintro rfl
      exact kept released
  | none =>
      cases exits : event.exitAddress (tables.threads event.tid) with
      | none => rfl
      | some other =>
          cases slot : (tables.threads event.tid).slot with
          | none => rfl
          | some sinfo =>
              dsimp only
              split
              · rw [apply_insert_allocs]
                split
                · apply Function.update_of_ne
                  rintro rfl
                  exact notReturned ⟨exits, by rw [slot]; simp⟩
                · rfl
              · rfl

/-- A thread keeps its entry in `sizes` until it exits. -/
theorem Event.next_slot_of_no_exitAddress
    {rodata : Rodata}
    {event : Event}
    {outcome : Outcome}
    {thread : ThreadState}
    {sinfo : SizeInfo}
    (occupied : thread.slot = some sinfo)
    (noExit : event.exitAddress thread = none) :
    (event.next rodata outcome thread).slot = some sinfo := by
  unfold Event.next
  cases event.probe with
  | enter call => simp [occupied]
  | exit fn => simp [noExit, occupied]
  | release call => exact occupied

end Memleak
end EbpfHub
