import EbpfHub.Memleak.Nesting

/-!
# Forwarding wrappers are invisible

An allocation function may forward to others on the same thread, all returning
the same block, and a releasing function may forward likewise.  A run with such
chains is compared with the run in which every chain is the single call that it
starts with.
-/

namespace EbpfHub
namespace Memleak

open Foundations

/-- One event of the run with chains, and the event that the run of single
calls has in its place, if any. -/
structure ChainItem where
  event : Event
  original : Option Event

/-- Where a thread is in a chain.  An allocating thread has an outermost call,
a list of open calls with the innermost first, and what the outermost entry
captured; once an exit has happened, there is the returned address and whether
the single call has returned in the other run. -/
inductive ChainStatus
  | idle
  | allocating (outer : Call) (calls : List Call) (sinfo : SizeInfo)
      (progress : Option (U64 × Bool))
  | releasing (address : U64) (kept : Bool)

namespace ChainStatus

/-- The chain has started to return or to release the block at the address. -/
def Busy (status : ChainStatus) (address : U64) : Prop :=
  Recordable address ∧
    ((∃ outer calls sinfo kept,
        status = .allocating outer calls sinfo (some (address, kept))) ∨
      ∃ kept, status = .releasing address kept)

/-- The single call of the other run has happened as a whole. -/
def Complete (status : ChainStatus) : Prop :=
  (∃ outer calls sinfo address, status = .allocating outer calls sinfo (some (address, true))) ∨
    ∃ address, status = .releasing address true

theorem not_busy_idle (address : U64) : ¬idle.Busy address := by
  rintro ⟨_, ⟨_, _, _, _, same⟩ | ⟨_, same⟩⟩ <;> cases same

/-- The status after one of the open calls has returned. -/
def afterExit
    (outer : Call)
    (calls : List Call)
    (sinfo : SizeInfo)
    (address : U64)
    (kept : Bool) : ChainStatus :=
  if calls = [] then .idle else .allocating outer calls sinfo (some (address, kept))

end ChainStatus

/-- No other thread is returning or releasing the block at the address. -/
def Alone (status : U32 → ChainStatus) (tid : U32) (address : U64) : Prop :=
  ∀ other, other ≠ tid → ¬(status other).Busy address

/-- The single call has returned in the other run. -/
def keptOf : Option (U64 × Bool) → Bool
  | none => false
  | some (_, kept) => kept

/-- At most one exit of a chain stands for the exit of the single call. -/
inductive KeepsExit (tid : U32) (outer : Call) (address : U64) :
    Bool → Option Event → Bool → Prop
  | skip (kept : Bool) : KeepsExit tid outer address kept none kept
  | keep (ctx : Context) :
      ctx.tid = tid →
      outer.returns ctx = some address →
      KeepsExit tid outer address false (some ⟨ctx, .exit outer.fn⟩) true

/-- At most one release of a chain stands for the single release. -/
inductive KeepsRelease (tid : U32) (address : U64) : Bool → Option Event → Bool → Prop
  | skip (kept : Bool) : KeepsRelease tid address kept none kept
  | keep (ctx : Context) (call : Release) :
      ctx.tid = tid →
      call.address = address →
      KeepsRelease tid address false (some ⟨ctx, .release call⟩) true

/-- The events of chains on any number of threads.  Other threads may do
anything inside a chain but return or release the block that the chain is
returning or releasing. -/
inductive ChainStep : (U32 → ChainStatus) → ChainItem → (U32 → ChainStatus) → Prop
  | openChain (status : U32 → ChainStatus) (ctx : Context) (call : Call) :
      status ctx.tid = .idle →
      call.released = none →
      ChainStep status ⟨⟨ctx, .enter call⟩, some ⟨ctx, .enter call⟩⟩
        (Function.update status ctx.tid
          (.allocating call [call]
            (captureSizeInfo call.size ctx.stackId ctx.sp ctx.readUser) none))
  | nestCall (status : U32 → ChainStatus) (ctx : Context) (call outer : Call)
      (calls : List Call) (sinfo : SizeInfo) :
      status ctx.tid = .allocating outer calls sinfo none →
      call.released = none →
      ChainStep status ⟨⟨ctx, .enter call⟩, none⟩
        (Function.update status ctx.tid (.allocating outer (call :: calls) sinfo none))
  | exitCall (status : U32 → ChainStatus) (ctx : Context) (call outer : Call)
      (calls : List Call) (sinfo : SizeInfo) (progress : Option (U64 × Bool))
      (address : U64) (original : Option Event) (kept : Bool) :
      status ctx.tid = .allocating outer (call :: calls) sinfo progress →
      (∀ returned earlier, progress = some (returned, earlier) → returned = address) →
      call.returns ctx = some address →
      Alone status ctx.tid address →
      KeepsExit ctx.tid outer address (keptOf progress) original kept →
      (calls = [] → kept = true) →
      ChainStep status ⟨⟨ctx, .exit call.fn⟩, original⟩
        (Function.update status ctx.tid
          (ChainStatus.afterExit outer calls sinfo address kept))
  | releaseBlock (status : U32 → ChainStatus) (ctx : Context) (call : Release)
      (original : Option Event) (earlier kept last : Bool) :
      (status ctx.tid = .idle ∧ earlier = false ∨
        status ctx.tid = .releasing call.address earlier) →
      Alone status ctx.tid call.address →
      KeepsRelease ctx.tid call.address earlier original kept →
      (last = true → kept = true) →
      ChainStep status ⟨⟨ctx, .release call⟩, original⟩
        (Function.update status ctx.tid
          (if last then .idle else .releasing call.address kept))

/-! ## The two sides of the simulation -/

/-- A record without its timestamp. -/
def AllocInfo.untimed (info : AllocInfo) : AllocInfo := { info with timestampNs := 0 }

theorem untimed_allocInfoOf (sinfo : SizeInfo) (first second : U64) :
    (allocInfoOf sinfo first).untimed = (allocInfoOf sinfo second).untimed := rfl

/-- The address is recorded with the captured data, unless it is no block. -/
def RecordsCapture (tables : Tables) (address : U64) (sinfo : SizeInfo) : Prop :=
  Recordable address → ∃ ktime, tables.allocs address = some (allocInfoOf sinfo ktime)

/-- A thread in the run of single calls. -/
def OriginalSide (status : ChainStatus) (tables : Tables) (tid : U32) : Prop :=
  match status with
  | .idle => (tables.threads tid).slot = none
  | .allocating outer _ sinfo none =>
      (tables.threads tid).slot = some sinfo ∧ RemembersResult (tables.threads tid) outer
  | .allocating outer _ sinfo (some (_, false)) =>
      (tables.threads tid).slot = some sinfo ∧ RemembersResult (tables.threads tid) outer
  | .allocating _ _ sinfo (some (address, true)) =>
      (tables.threads tid).slot = none ∧ RecordsCapture tables address sinfo
  | .releasing address kept =>
      (tables.threads tid).slot = none ∧ (kept = true → tables.allocs address = none)

/-- A thread in the run with chains. -/
def ExpandedSide (status : ChainStatus) (tables : Tables) (tid : U32) : Prop :=
  match status with
  | .idle => (tables.threads tid).slot = none
  | .allocating _ calls sinfo none =>
      (tables.threads tid).slot = some sinfo ∧
        ∀ call ∈ calls.head?, RemembersResult (tables.threads tid) call
  | .allocating _ _ sinfo (some (address, _)) =>
      (tables.threads tid).slot = none ∧ RecordsCapture tables address sinfo
  | .releasing address _ =>
      (tables.threads tid).slot = none ∧ tables.allocs address = none

/-- The run of single calls and the run with chains, side by side. -/
structure SameButChains
    (status : U32 → ChainStatus)
    (tables : Tables × Tables) : Prop where
  original : ∀ tid, OriginalSide (status tid) tables.1 tid
  expanded : ∀ tid, ExpandedSide (status tid) tables.2 tid
  agree : ∀ address, (∀ tid, ¬(status tid).Busy address) →
    (tables.1.allocs address).map AllocInfo.untimed =
      (tables.2.allocs address).map AllocInfo.untimed
  blocks : ∀ address, ¬Recordable address →
    tables.1.allocs address = none ∧ tables.2.allocs address = none

/-- Both runs handle one item. -/
def chainRunStep (rodata : Rodata) (tables : Tables × Tables) (item : ChainItem) :
    Tables × Tables :=
  (optionalStep (Tables.step rodata .success) tables.1 item.original,
   tables.2.step rodata .success item.event)

/-! ## What one event does to each side -/

section Steps

variable {pageSize : U64} {tables : Tables} {ctx : Context}

/-- Under the settings of `main`, an entry fills an empty slot. -/
theorem step_enter_thread (call : Call) :
    (tables.step (.main pageSize) .success ⟨ctx, .enter call⟩).threads ctx.tid =
      { slot := (tables.threads ctx.tid).slot.or
          (some (captureSizeInfo call.size ctx.stackId ctx.sp ctx.readUser))
        memptr := call.memptr.or (tables.threads ctx.tid).memptr } := by
  simp [Event.tid, Event.next, Outcome.success, captureOf, Rodata.main_accepts]

/-- An entry that gives up no block leaves the allocations alone. -/
theorem step_enter_allocs_of_plain
    {call : Call}
    (plain : call.released = none) :
    (tables.step (.main pageSize) .success ⟨ctx, .enter call⟩).allocs = tables.allocs := by
  rw [Tables.step_enter_allocs, plain, forget_none]

/-- An exit that returns an address records what is in the slot. -/
theorem step_exit_records
    {event : Event}
    {address : U64}
    {sinfo : SizeInfo}
    (exits : event.exitAddress (tables.threads event.tid) = some address)
    (occupied : (tables.threads event.tid).slot = some sinfo) :
    ((tables.step (.main pageSize) .success event).threads event.tid).slot = none ∧
      RecordsCapture (tables.step (.main pageSize) .success event) address sinfo := by
  constructor
  · obtain ⟨eventCtx, probe⟩ := event
    cases probe with
    | exit fn => simp [Event.next, exits]
    | _ => cases exits
  · intro recordable
    refine ⟨event.ctx.ktime, ?_⟩
    rw [Tables.step_exit_allocs _ _ _ exits, occupied]
    simp [recordable, Outcome.success]

/-- An exit on a thread without an entry in `sizes` changes nothing of it. -/
theorem step_exit_of_empty
    (fn : AllocFn)
    (empty : (tables.threads ctx.tid).slot = none) :
    ((tables.step (.main pageSize) .success ⟨ctx, .exit fn⟩).threads ctx.tid).slot = none ∧
      (tables.step (.main pageSize) .success ⟨ctx, .exit fn⟩).allocs = tables.allocs := by
  constructor
  · simp [Event.tid, Event.next, empty]
  · funext address
    apply Tables.step_allocs_of_not_touches
    rintro (released | ⟨_, occupied⟩)
    · cases released
    · exact occupied empty

end Steps

/-! ## The simulation -/

section Simulation

variable {status : U32 → ChainStatus} {tables next : Tables × Tables}

/-- A side depends on the thread's entries and on the address it is busy with. -/
theorem OriginalSide.frame
    {phase : ChainStatus}
    {before after : Tables}
    {tid : U32}
    (side : OriginalSide phase before tid)
    (thread : after.threads tid = before.threads tid)
    (allocs : ∀ address, ¬Recordable address ∨ phase.Busy address →
      after.allocs address = before.allocs address) :
    OriginalSide phase after tid := by
  unfold OriginalSide at side ⊢
  rw [thread]
  split at side
  · exact side
  · exact side
  · exact side
  · next outer calls sinfo address =>
    refine ⟨side.1, fun recordable => ?_⟩
    rw [allocs address (.inr ⟨recordable, .inl ⟨_, _, _, _, rfl⟩⟩)]
    exact side.2 recordable
  · next address kept =>
    refine ⟨side.1, fun released => ?_⟩
    rw [allocs address (by
      by_cases recordable : Recordable address
      · exact .inr ⟨recordable, .inr ⟨_, rfl⟩⟩
      · exact .inl recordable)]
    exact side.2 released

theorem ExpandedSide.frame
    {phase : ChainStatus}
    {before after : Tables}
    {tid : U32}
    (side : ExpandedSide phase before tid)
    (thread : after.threads tid = before.threads tid)
    (allocs : ∀ address, ¬Recordable address ∨ phase.Busy address →
      after.allocs address = before.allocs address) :
    ExpandedSide phase after tid := by
  unfold ExpandedSide at side ⊢
  rw [thread]
  split at side
  · exact side
  · exact side
  · next outer calls sinfo address kept =>
    refine ⟨side.1, fun recordable => ?_⟩
    rw [allocs address (.inr ⟨recordable, .inl ⟨_, _, _, _, rfl⟩⟩)]
    exact side.2 recordable
  · next address kept =>
    refine ⟨side.1, ?_⟩
    rw [allocs address (by
      by_cases recordable : Recordable address
      · exact .inr ⟨recordable, .inr ⟨_, rfl⟩⟩
      · exact .inl recordable)]
    exact side.2

/-- A complete chain has left no entry in `sizes`. -/
theorem OriginalSide.slot_of_complete
    {phase : ChainStatus}
    {side : Tables}
    {tid : U32}
    (original : OriginalSide phase side tid)
    (complete : phase.Complete) :
    (side.threads tid).slot = none := by
  rcases complete with ⟨outer, calls, sinfo, address, rfl⟩ | ⟨address, rfl⟩
  · exact original.1
  · exact original.1

theorem ExpandedSide.slot_of_complete
    {phase : ChainStatus}
    {side : Tables}
    {tid : U32}
    (expanded : ExpandedSide phase side tid)
    (complete : phase.Complete) :
    (side.threads tid).slot = none := by
  rcases complete with ⟨outer, calls, sinfo, address, rfl⟩ | ⟨address, rfl⟩
  · exact expanded.1
  · exact expanded.1

/-- A complete chain has had the same effect in both runs. -/
theorem agree_of_complete
    {phase : ChainStatus}
    {tid : U32}
    {address : U64}
    (complete : phase.Complete)
    (original : OriginalSide phase tables.1 tid)
    (expanded : ExpandedSide phase tables.2 tid)
    (busy : phase.Busy address) :
    (tables.1.allocs address).map AllocInfo.untimed =
      (tables.2.allocs address).map AllocInfo.untimed := by
  obtain ⟨recordable, busy⟩ := busy
  rcases complete with ⟨outer, calls, sinfo, returned, rfl⟩ | ⟨released, rfl⟩
  · have here : returned = address := by
      rcases busy with ⟨_, _, _, _, same⟩ | ⟨_, same⟩
      · cases same
        rfl
      · cases same
    subst here
    obtain ⟨first, originally⟩ := original.2 recordable
    obtain ⟨second, now⟩ := expanded.2 recordable
    rw [originally, now]
    exact congrArg some (untimed_allocInfoOf sinfo first second)
  · have here : released = address := by
      rcases busy with ⟨_, _, _, _, same⟩ | ⟨_, same⟩
      · cases same
      · cases same
        rfl
    subst here
    rw [original.2 rfl, expanded.2]

/-- Assemble the simulation after an event of one thread that touches one
address, with which no other thread is busy. -/
theorem SameButChains.advance
    (same : SameButChains status tables)
    {tid : U32}
    {phase : ChainStatus}
    (address : U64)
    (others : ∀ other, other ≠ tid →
      next.1.threads other = tables.1.threads other ∧
      next.2.threads other = tables.2.threads other)
    (elsewhere : ∀ other, ¬(Recordable address ∧ other = address) →
      next.1.allocs other = tables.1.allocs other ∧
      next.2.allocs other = tables.2.allocs other)
    (alone : Alone status tid address)
    (busy : ∀ other, (status tid).Busy other → other = address)
    (nextBusy : Recordable address → phase.Busy address)
    (original : OriginalSide phase next.1 tid)
    (expanded : ExpandedSide phase next.2 tid) :
    SameButChains (Function.update status tid phase) next := by
  have kept : ∀ other, other ≠ tid → ∀ place,
      ¬Recordable place ∨ (status other).Busy place →
        ¬(Recordable address ∧ place = address) := by
    rintro other different place (unrecordable | busyOther) ⟨recordable, rfl⟩
    · exact unrecordable recordable
    · exact alone other different busyOther
  refine ⟨?_, ?_, ?_, ?_⟩
  · intro other
    by_cases mine : other = tid
    · subst mine
      rw [Function.update_self]
      exact original
    · rw [Function.update_of_ne mine]
      exact (same.original other).frame (others other mine).1
        fun place reason => (elsewhere place (kept other mine place reason)).1
  · intro other
    by_cases mine : other = tid
    · subst mine
      rw [Function.update_self]
      exact expanded
    · rw [Function.update_of_ne mine]
      exact (same.expanded other).frame (others other mine).2
        fun place reason => (elsewhere place (kept other mine place reason)).2
  · intro place free
    have notHere : ¬(Recordable address ∧ place = address) := by
      rintro ⟨recordable, rfl⟩
      have mine := free tid
      rw [Function.update_self] at mine
      exact mine (nextBusy recordable)
    obtain ⟨first, second⟩ := elsewhere place notHere
    rw [first, second]
    apply same.agree
    intro other
    by_cases mine : other = tid
    · subst mine
      intro wasBusy
      exact notHere ⟨busy place wasBusy ▸ wasBusy.1, busy place wasBusy⟩
    · have still := free other
      rwa [Function.update_of_ne mine] at still
  · intro place unrecordable
    have notHere : ¬(Recordable address ∧ place = address) := by
      rintro ⟨recordable, rfl⟩
      exact unrecordable recordable
    obtain ⟨first, second⟩ := elsewhere place notHere
    rw [first, second]
    exact same.blocks place unrecordable

/-- A chain that stands complete in both runs can be closed. -/
theorem SameButChains.finish
    (same : SameButChains status tables)
    (tid : U32)
    (complete : (status tid).Complete) :
    SameButChains (Function.update status tid .idle) tables := by
  have original := same.original tid
  have expanded := same.expanded tid
  refine ⟨?_, ?_, ?_, same.blocks⟩
  · intro other
    by_cases mine : other = tid
    · subst mine
      rw [Function.update_self]
      exact original.slot_of_complete complete
    · rw [Function.update_of_ne mine]
      exact same.original other
  · intro other
    by_cases mine : other = tid
    · subst mine
      rw [Function.update_self]
      exact expanded.slot_of_complete complete
    · rw [Function.update_of_ne mine]
      exact same.expanded other
  · intro place free
    by_cases wasBusy : (status tid).Busy place
    · exact agree_of_complete complete original expanded wasBusy
    · apply same.agree
      intro other
      by_cases mine : other = tid
      · subst mine
        exact wasBusy
      · have still := free other
        rwa [Function.update_of_ne mine] at still

end Simulation

/-! ## One item of each kind -/

section Items

variable {pageSize : U64} {ctx : Context} {side : Tables}

/-- The exit of a chain in the run of single calls: it happens there or not. -/
theorem OriginalSide.exitCall
    {outer call : Call}
    {calls : List Call}
    {sinfo : SizeInfo}
    {progress : Option (U64 × Bool)}
    {address : U64}
    {original : Option Event}
    {kept : Bool}
    (before : OriginalSide (.allocating outer (call :: calls) sinfo progress) side ctx.tid)
    (sameBlock : ∀ returned earlier, progress = some (returned, earlier) → returned = address)
    (keeps : KeepsExit ctx.tid outer address (keptOf progress) original kept) :
    OriginalSide (.allocating outer calls sinfo (some (address, kept)))
      (optionalStep (Tables.step (.main pageSize) .success) side original) ctx.tid := by
  generalize known : keptOf progress = earlier at keeps
  cases keeps with
  | skip =>
      obtain _ | ⟨returned, _ | _⟩ := progress
      · cases known
        exact before
      · cases known
        exact before
      · cases known
        obtain rfl := sameBlock returned true rfl
        exact before
  | keep exitCtx thread returns =>
      have pending : (side.threads ctx.tid).slot = some sinfo ∧
          RemembersResult (side.threads ctx.tid) outer := by
        obtain _ | ⟨returned, _ | _⟩ := progress
        · exact before
        · exact before
        · cases known
      rw [← thread] at pending ⊢
      have exits : Event.exitAddress ⟨exitCtx, .exit outer.fn⟩ (side.threads exitCtx.tid) =
          some address :=
        exitAddress_of_returns returns pending.2
      exact step_exit_records exits pending.1

/-- The exit of a chain in the run with chains: the first one records the block
and the others find no entry in `sizes`. -/
theorem ExpandedSide.exitCall
    {outer call : Call}
    {calls : List Call}
    {sinfo : SizeInfo}
    {progress : Option (U64 × Bool)}
    {address : U64}
    (kept : Bool)
    (before : ExpandedSide (.allocating outer (call :: calls) sinfo progress) side ctx.tid)
    (sameBlock : ∀ returned earlier, progress = some (returned, earlier) → returned = address)
    (returns : call.returns ctx = some address) :
    ExpandedSide (.allocating outer calls sinfo (some (address, kept)))
      (side.step (.main pageSize) .success ⟨ctx, .exit call.fn⟩) ctx.tid := by
  obtain _ | ⟨returned, earlier⟩ := progress
  · have exits : Event.exitAddress ⟨ctx, .exit call.fn⟩ (side.threads ctx.tid) = some address :=
      exitAddress_of_returns returns (before.2 call rfl)
    exact step_exit_records exits before.1
  · obtain rfl := sameBlock returned earlier rfl
    obtain ⟨empty, allocs⟩ := step_exit_of_empty call.fn before.1
    refine ⟨empty, ?_⟩
    unfold RecordsCapture
    rw [allocs]
    exact before.2

/-- An exit of a chain touches no address but the one that the chain returns,
in either run. -/
theorem exitCall_elsewhere
    {tables : Tables × Tables}
    {outer call : Call}
    {calls : List Call}
    {sinfo : SizeInfo}
    {progress : Option (U64 × Bool)}
    {address other : U64}
    {original : Option Event}
    {kept : Bool}
    (first : OriginalSide (.allocating outer (call :: calls) sinfo progress) tables.1 ctx.tid)
    (second : ExpandedSide (.allocating outer (call :: calls) sinfo progress) tables.2 ctx.tid)
    (returns : call.returns ctx = some address)
    (keeps : KeepsExit ctx.tid outer address (keptOf progress) original kept)
    (elsewhere : ¬(Recordable address ∧ other = address)) :
    (optionalStep (Tables.step (.main pageSize) .success) tables.1 original).allocs other =
        tables.1.allocs other ∧
      (tables.2.step (.main pageSize) .success ⟨ctx, .exit call.fn⟩).allocs other =
        tables.2.allocs other := by
  constructor
  · generalize known : keptOf progress = earlier at keeps
    cases keeps with
    | skip => rfl
    | keep exitCtx thread exitReturns =>
        have remembers : RemembersResult (tables.1.threads exitCtx.tid) outer := by
          rw [thread]
          obtain _ | ⟨returned, _ | _⟩ := progress
          · exact first.2
          · exact first.2
          · cases known
        have exits : Event.exitAddress ⟨exitCtx, .exit outer.fn⟩
            (tables.1.threads exitCtx.tid) = some address :=
          exitAddress_of_returns exitReturns remembers
        exact Tables.step_exit_allocs_of_ne _ _ _ exits elsewhere
  · obtain _ | ⟨returned, earlier⟩ := progress
    · have exits : Event.exitAddress ⟨ctx, .exit call.fn⟩ (tables.2.threads ctx.tid) =
          some address :=
        exitAddress_of_returns returns (second.2 call rfl)
      exact Tables.step_exit_allocs_of_ne _ _ _ exits elsewhere
    · rw [(step_exit_of_empty call.fn second.1).2]

/-- A release of a chain in the run of single calls. -/
theorem OriginalSide.releaseBlock
    {phase : ChainStatus}
    {address : U64}
    {original : Option Event}
    {earlier kept : Bool}
    (before : OriginalSide phase side ctx.tid)
    (current : phase = .idle ∧ earlier = false ∨ phase = .releasing address earlier)
    (keeps : KeepsRelease ctx.tid address earlier original kept) :
    OriginalSide (.releasing address kept)
      (optionalStep (Tables.step (.main pageSize) .success) side original) ctx.tid := by
  cases keeps with
  | skip =>
      rcases current with ⟨rfl, rfl⟩ | rfl
      · exact ⟨before, fun done => by cases done⟩
      · exact before
  | keep exitCtx call thread block =>
      have empty : (side.threads ctx.tid).slot = none := by
        rcases current with ⟨rfl, _⟩ | rfl
        · exact before
        · exact before.1
      refine ⟨?_, ?_⟩
      · simp only [optionalStep, Tables.step_threads, Event.next, Function.update_eq_self]
        exact empty
      · intro _
        simp only [optionalStep, Tables.step_release_allocs, block, forget_self]

/-- A release of a chain in the run with chains. -/
theorem ExpandedSide.releaseBlock
    {phase : ChainStatus}
    {call : Release}
    {earlier : Bool}
    (kept : Bool)
    (before : ExpandedSide phase side ctx.tid)
    (current : phase = .idle ∧ earlier = false ∨ phase = .releasing call.address earlier) :
    ExpandedSide (.releasing call.address kept)
      (side.step (.main pageSize) .success ⟨ctx, .release call⟩) ctx.tid := by
  have empty : (side.threads ctx.tid).slot = none := by
    rcases current with ⟨rfl, _⟩ | rfl
    · exact before
    · exact before.1
  refine ⟨?_, ?_⟩
  · simp only [Tables.step_threads, Event.next, Function.update_eq_self]
    exact empty
  · rw [Tables.step_release_allocs, forget_self]

end Items

/-! ## The simulation of a whole run -/

section Run

variable {pageSize : U64} {status next : U32 → ChainStatus} {tables : Tables × Tables}

/-- The event that an item has in the run of single calls is on its thread. -/
theorem optionalStep_threads_of_ne
    {original : Option Event}
    {side : Tables}
    {tid other : U32}
    (thread : ∀ event, original = some event → event.tid = tid)
    (different : other ≠ tid) :
    (optionalStep (Tables.step (.main pageSize) .success) side original).threads other =
      side.threads other := by
  cases original with
  | none => rfl
  | some event =>
      apply Tables.step_threads_of_ne
      rw [thread event rfl]
      exact different

theorem KeepsExit.thread
    {tid : U32}
    {outer : Call}
    {address : U64}
    {earlier kept : Bool}
    {original : Option Event}
    (keeps : KeepsExit tid outer address earlier original kept) :
    ∀ event, original = some event → event.tid = tid := by
  rintro event rfl
  cases keeps with
  | keep ctx thread returns => exact thread

theorem KeepsRelease.thread
    {tid : U32}
    {address : U64}
    {earlier kept : Bool}
    {original : Option Event}
    (keeps : KeepsRelease tid address earlier original kept) :
    ∀ event, original = some event → event.tid = tid := by
  rintro event rfl
  cases keeps with
  | keep ctx call thread block => exact thread

/-- A chain opens: both runs fill the slot with the same capture. -/
theorem SameButChains.openChain
    (same : SameButChains status tables)
    (ctx : Context)
    (call : Call)
    (idle : status ctx.tid = .idle)
    (plain : call.released = none) :
    SameButChains
      (Function.update status ctx.tid
        (.allocating call [call] (captureSizeInfo call.size ctx.stackId ctx.sp ctx.readUser) none))
      (chainRunStep (.main pageSize) tables
        ⟨⟨ctx, .enter call⟩, some ⟨ctx, .enter call⟩⟩) := by
  have first : (tables.1.threads ctx.tid).slot = none := by
    have side := same.original ctx.tid
    rwa [idle] at side
  have second : (tables.2.threads ctx.tid).slot = none := by
    have side := same.expanded ctx.tid
    rwa [idle] at side
  apply same.advance 0
  · intro other different
    exact ⟨Tables.step_threads_of_ne _ _ _ _ different,
      Tables.step_threads_of_ne _ _ _ _ different⟩
  · intro other _
    simp only [chainRunStep, optionalStep, step_enter_allocs_of_plain plain, and_self]
  · intro other _ busy
    exact busy.1.1 rfl
  · intro other busy
    rw [idle] at busy
    exact absurd busy (ChainStatus.not_busy_idle other)
  · intro recordable
    exact absurd rfl recordable.1
  · simp only [chainRunStep, optionalStep, OriginalSide, step_enter_thread, first,
      Option.none_or, true_and]
    intro memptr result
    simp [result]
  · simp only [chainRunStep, ExpandedSide, step_enter_thread, second, Option.none_or, true_and]
    intro head isHead memptr result
    obtain rfl : call = head := by simpa using isHead
    simp [result]

/-- A nested call opens: the entry in `sizes` is kept. -/
theorem SameButChains.nestCall
    (same : SameButChains status tables)
    (ctx : Context)
    (call outer : Call)
    (calls : List Call)
    (sinfo : SizeInfo)
    (inside : status ctx.tid = .allocating outer calls sinfo none)
    (plain : call.released = none) :
    SameButChains
      (Function.update status ctx.tid (.allocating outer (call :: calls) sinfo none))
      (chainRunStep (.main pageSize) tables ⟨⟨ctx, .enter call⟩, none⟩) := by
  have first := same.original ctx.tid
  have second := same.expanded ctx.tid
  rw [inside] at first second
  apply same.advance 0
  · intro other different
    exact ⟨rfl, Tables.step_threads_of_ne _ _ _ _ different⟩
  · intro other _
    simp only [chainRunStep, optionalStep, step_enter_allocs_of_plain plain, and_self]
  · intro other _ busy
    exact busy.1.1 rfl
  · intro other busy
    rw [inside] at busy
    rcases busy.2 with ⟨_, _, _, _, same⟩ | ⟨_, same⟩
    · cases same
    · cases same
  · intro recordable
    exact absurd rfl recordable.1
  · exact first
  · simp only [chainRunStep, ExpandedSide, step_enter_thread, second.1, Option.some_or, true_and]
    intro head isHead memptr result
    obtain rfl : call = head := by simpa using isHead
    simp [result]

/-- An open call of a chain returns. -/
theorem SameButChains.exitCall
    (same : SameButChains status tables)
    {ctx : Context}
    {call outer : Call}
    {calls : List Call}
    {sinfo : SizeInfo}
    {progress : Option (U64 × Bool)}
    {address : U64}
    {original : Option Event}
    {kept : Bool}
    (inside : status ctx.tid = .allocating outer (call :: calls) sinfo progress)
    (sameBlock : ∀ returned earlier, progress = some (returned, earlier) → returned = address)
    (returns : call.returns ctx = some address)
    (alone : Alone status ctx.tid address)
    (keeps : KeepsExit ctx.tid outer address (keptOf progress) original kept) :
    SameButChains
      (Function.update status ctx.tid (.allocating outer calls sinfo (some (address, kept))))
      (chainRunStep (.main pageSize) tables ⟨⟨ctx, .exit call.fn⟩, original⟩) := by
  have first := same.original ctx.tid
  have second := same.expanded ctx.tid
  rw [inside] at first second
  apply same.advance address
  · intro other different
    exact ⟨optionalStep_threads_of_ne keeps.thread different,
      Tables.step_threads_of_ne _ _ _ _ different⟩
  · intro other elsewhere
    exact exitCall_elsewhere first second returns keeps elsewhere
  · exact alone
  · intro other busy
    rw [inside] at busy
    rcases busy.2 with ⟨_, _, _, _, returning⟩ | ⟨_, releasing⟩
    · cases returning
      exact sameBlock other _ rfl
    · cases releasing
  · intro recordable
    exact ⟨recordable, .inl ⟨_, _, _, _, rfl⟩⟩
  · exact first.exitCall sameBlock keeps
  · exact second.exitCall kept sameBlock returns

/-- A chain releases its block, perhaps once more. -/
theorem SameButChains.releaseBlock
    (same : SameButChains status tables)
    {ctx : Context}
    {call : Release}
    {original : Option Event}
    {earlier kept : Bool}
    (current : status ctx.tid = .idle ∧ earlier = false ∨
      status ctx.tid = .releasing call.address earlier)
    (alone : Alone status ctx.tid call.address)
    (keeps : KeepsRelease ctx.tid call.address earlier original kept) :
    SameButChains (Function.update status ctx.tid (.releasing call.address kept))
      (chainRunStep (.main pageSize) tables ⟨⟨ctx, .release call⟩, original⟩) := by
  have unrecorded : ∀ side : Tables, ∀ other,
      (¬Recordable call.address → side.allocs call.address = none) →
      ¬(Recordable call.address ∧ other = call.address) →
        forget (some call.address) side.allocs other = side.allocs other := by
    intro side other blank elsewhere
    by_cases here : other = call.address
    · subst here
      rw [forget_self, blank fun recordable => elsewhere ⟨recordable, rfl⟩]
    · apply forget_of_ne
      rintro ⟨⟩
      exact here rfl
  apply same.advance call.address
  · intro other different
    exact ⟨optionalStep_threads_of_ne keeps.thread different,
      Tables.step_threads_of_ne _ _ _ _ different⟩
  · intro other elsewhere
    constructor
    · cases keeps with
      | skip => rfl
      | keep exitCtx released thread block =>
          simp only [chainRunStep, optionalStep, Tables.step_release_allocs, block]
          exact unrecorded _ _ (fun blank => (same.blocks _ blank).1) elsewhere
    · simp only [chainRunStep, Tables.step_release_allocs]
      exact unrecorded _ _ (fun blank => (same.blocks _ blank).2) elsewhere
  · exact alone
  · intro other busy
    rcases current with ⟨idle, _⟩ | releasing
    · rw [idle] at busy
      exact absurd busy (ChainStatus.not_busy_idle other)
    · rw [releasing] at busy
      rcases busy.2 with ⟨_, _, _, _, returning⟩ | ⟨_, here⟩
      · cases returning
      · cases here
        rfl
  · intro recordable
    exact ⟨recordable, .inr ⟨_, rfl⟩⟩
  · exact (same.original ctx.tid).releaseBlock current keeps
  · exact (same.expanded ctx.tid).releaseBlock kept current

/-- One item of a run with chains preserves the simulation. -/
theorem SameButChains.step
    {item : ChainItem}
    (allowed : ChainStep status item next)
    (same : SameButChains status tables) :
    SameButChains next (chainRunStep (.main pageSize) tables item) := by
  cases allowed with
  | openChain ctx call idle plain => exact same.openChain ctx call idle plain
  | nestCall ctx call outer calls sinfo inside plain =>
      exact same.nestCall ctx call outer calls sinfo inside plain
  | exitCall ctx call outer calls sinfo progress address original kept
      inside sameBlock returns alone keeps last =>
      have after : SameButChains _ (chainRunStep (.main pageSize) tables _) :=
        same.exitCall inside sameBlock returns alone keeps
      unfold ChainStatus.afterExit
      split
      · next closing =>
        obtain rfl := last closing
        have closed := after.finish ctx.tid
          (by rw [Function.update_self]; exact .inl ⟨_, _, _, _, rfl⟩)
        rwa [Function.update_idem] at closed
      · exact after
  | releaseBlock ctx call original earlier kept last current alone keeps done =>
      have after : SameButChains _ (chainRunStep (.main pageSize) tables _) :=
        same.releaseBlock current alone keeps
      split
      · next closing =>
        obtain rfl := done closing
        have closed := after.finish ctx.tid
          (by rw [Function.update_self]; exact .inr ⟨_, rfl⟩)
        rwa [Function.update_idem] at closed
      · exact after

/-- Before the first event nothing is in progress and both runs have recorded
nothing. -/
theorem SameButChains.empty :
    SameButChains (fun _ => .idle) (Tables.empty, Tables.empty) where
  original := fun _ => rfl
  expanded := fun _ => rfl
  agree := fun _ _ => rfl
  blocks := fun _ _ => ⟨rfl, rfl⟩

end Run

/-- The events of a run with chains. -/
def expandedEvents (items : List ChainItem) : List Event :=
  items.map ChainItem.event

/-- The events of the run of single calls that it expands. -/
def originalEvents (items : List ChainItem) : List Event :=
  items.filterMap ChainItem.original

/-- `operator new` forwards to `malloc`, which asks for more. -/
def newForwards : List ChainItem :=
  [ ⟨⟨.quiet 1 0, .enter (.operatorNew 16)⟩, some ⟨.quiet 1 0, .enter (.operatorNew 16)⟩⟩,
    ⟨⟨.quiet 1 0, .enter (.malloc 24)⟩, none⟩,
    ⟨⟨.quiet 1 4096, .exit .malloc⟩, none⟩,
    ⟨⟨.quiet 1 4096, .exit .operatorNew⟩, some ⟨.quiet 1 4096, .exit .operatorNew⟩⟩ ]

/-- Whenever no chain is in progress, the run with chains has the allocations
of the run of single calls, with the size and the stacks that the outermost
entry of each captured, and no thread has an entry in `sizes` in either. -/
theorem forwarding_invisible
    (pageSize : U64)
    (items : List ChainItem)
    (status : U32 → ChainStatus)
    (trace : Trace ChainStep (fun _ => .idle) items status)
    (quiet : ∀ tid, status tid = .idle)
    (originalNoFailure :
      (runEvents (.main pageSize) (originalEvents items)).failedUpdates = 0)
    (expandedNoFailure :
      (runEvents (.main pageSize) (expandedEvents items)).failedUpdates = 0) :
    (∀ address,
      ((runEvents (.main pageSize) (expandedEvents items)).allocs.lookup address).map
          AllocInfo.untimed =
        ((runEvents (.main pageSize) (originalEvents items)).allocs.lookup address).map
          AllocInfo.untimed) ∧
    (runEvents (.main pageSize) (expandedEvents items)).sizes =
      (runEvents (.main pageSize) (originalEvents items)).sizes := by
  have same := trace.simulation (chainRunStep (.main pageSize)) SameButChains
    (fun allowed same => same.step allowed) SameButChains.empty
  have sides : run (chainRunStep (.main pageSize)) (Tables.empty, Tables.empty) items =
      ((runEvents (.main pageSize) (originalEvents items)).tables,
        (runEvents (.main pageSize) (expandedEvents items)).tables) := by
    rw [runEvents, runEvents, tables_run_of_noFailure originalNoFailure,
      tables_run_of_noFailure expandedNoFailure, Maps.tables_empty, originalEvents,
      expandedEvents, ← run_optionalStep, ← run_map]
    exact run_prod
      (fun state (item : ChainItem) =>
        optionalStep (Tables.step (.main pageSize) .success) state item.original)
      (fun state (item : ChainItem) =>
        Tables.step (.main pageSize) .success state item.event) _ _
  rw [sides] at same
  constructor
  · intro address
    apply Eq.symm
    apply same.agree address
    intro tid
    rw [quiet tid]
    exact ChainStatus.not_busy_idle address
  · apply BoundedMap.ext_lookup
    intro tid
    have first := same.original tid
    have second := same.expanded tid
    rw [quiet tid] at first second
    exact Eq.trans second (Eq.symm first)

private theorem alone_of_others_idle
    {status : U32 → ChainStatus}
    {tid : U32}
    {address : U64}
    (idle : ∀ other, other ≠ tid → status other = .idle) :
    Alone status tid address := by
  intro other different
  rw [idle other different]
  exact ChainStatus.not_busy_idle address

theorem forwarding_invisible_newForwards :
    ((runEvents (.main 4096) (expandedEvents newForwards)).allocs.lookup 4096).map
        AllocInfo.untimed =
      some (allocInfoOf (captureSizeInfo 16 0 0 fun _ => none) 0).untimed := by
  have single : ((runEvents (.main 4096) (originalEvents newForwards)).allocs.lookup 4096).map
      AllocInfo.untimed =
        some (allocInfoOf (captureSizeInfo 16 0 0 fun _ => none) 0).untimed := by
    decide
  rw [← single]
  refine (forwarding_invisible 4096 newForwards _
    (.cons (.openChain _ _ _ rfl rfl)
      (.cons (.nestCall _ _ _ _ _ _ rfl rfl)
        (.cons (.exitCall _ _ (.malloc 24) _ [.operatorNew 16] _ none 4096 none false rfl
            (by simp) rfl (alone_of_others_idle ?_) (.skip false) (by simp))
          (.cons (.exitCall _ _ (.operatorNew 16) _ [] _ (some (4096, false)) 4096 _ true rfl
              (by simp) rfl (alone_of_others_idle ?_) (.keep _ rfl rfl) (by simp))
            (.nil _))))) ?_ (by decide) (by decide)).1 4096
  · intro other different
    simp only [Context.quiet_tid] at different ⊢
    simp only [Function.update_of_ne different]
  · intro other different
    simp only [Context.quiet_tid] at different ⊢
    simp only [Function.update_of_ne different]
  · intro tid
    simp [ChainStatus.afterExit, Function.update_apply]

end Memleak
end EbpfHub
