import EbpfHub.Memleak.Nesting
import EbpfHub.Memleak.Provenance

/-!
# A failed resize

`realloc` and `mremap` give up their block on entry, before it is known whether
they succeed, and their exit does not restore it.
-/

namespace EbpfHub
namespace Memleak

open Foundations

/-- The events of calls that are not nested. -/
def Nesting.FlatStep (before : Nesting) (event : Event) (after : Nesting) : Prop :=
  Step before event after ∧ ∀ tid, (after tid).length ≤ 1

theorem Nesting.flat_none (tid : U32) : (Nesting.none tid).length ≤ 1 := Nat.zero_le 1

theorem Nesting.flat_update
    {calls : Nesting}
    (flat : ∀ tid, (calls tid).length ≤ 1)
    (tid : U32)
    {inside : List Call}
    (short : inside.length ≤ 1) :
    ∀ other, (Function.update calls tid inside other).length ≤ 1 := by
  intro other
  rw [Function.update_apply]
  split
  · exact short
  · exact flat other

/-- The call reports by its return value that it has not resized the block. -/
def Call.FailsResize (call : Call) (ctx : Context) : Prop :=
  call.fn = .realloc ∧ call.size ≠ 0 ∧ ctx.rc = 0 ∨
    call.fn = .mremap ∧ ctx.rc = mapFailed

/-- A failed resize of a recorded block, in a run of calls that are not nested:
the events before it, its entry, the events of other threads until it returns,
none of which returns the block that is still allocated, and its exit. -/
structure FailedResize (rodata : Rodata) where
  before : List Event
  ctx : Context
  call : Call
  address : U64
  during : List Event
  exitCtx : Context
  calls : Nesting
  inner : Nesting
  record : AllocInfo
  flatBefore : Trace Nesting.FlatStep Nesting.none before calls
  outermost : calls ctx.tid = []
  flatDuring : Trace Nesting.FlatStep (Function.update calls ctx.tid [call]) during inner
  resizes : call.released = some address
  recorded : (runEvents rodata before).allocs.lookup address = some record
  otherThreads : ∀ event ∈ during, event.tid ≠ ctx.tid
  stillAllocated : Along (step rodata)
    (fun maps event => event.exitAddress (maps.tables.threads event.tid) ≠ some address)
    (step rodata (runEvents rodata before) ⟨ctx, .enter call⟩) during
  sameThread : exitCtx.tid = ctx.tid
  fails : call.FailsResize exitCtx

namespace FailedResize

variable {rodata : Rodata}

/-- The maps when the call is about to return. -/
def pending (resize : FailedResize rodata) : Maps :=
  run (step rodata)
    (step rodata (runEvents rodata resize.before) ⟨resize.ctx, .enter resize.call⟩)
    resize.during

/-- The maps after the exit. -/
def after (resize : FailedResize rodata) : Maps :=
  step rodata resize.pending ⟨resize.exitCtx, .exit resize.call.fn⟩

/-- The block is still recorded with its size and stack, the other records are
those that the other threads left, and the thread has no entry in `sizes`. -/
structure Intact (resize : FailedResize rodata) : Prop where
  kept : ∃ info, resize.after.allocs.lookup resize.address = some info ∧
    info.size = resize.record.size ∧ info.stackId = resize.record.stackId
  others : ∀ other, other ≠ resize.address →
    resize.after.allocs.lookup other = resize.pending.allocs.lookup other
  settled : resize.after.sizes.lookup resize.ctx.tid = none

/-- The entry forgets the block and no other thread records it. -/
theorem forgotten_pending (resize : FailedResize rodata) :
    resize.pending.allocs.lookup resize.address = none := by
  apply resize.stillAllocated.invariant fun maps => maps.allocs.lookup resize.address = none
  · intro maps event notReturned absent
    apply Option.eq_none_iff_forall_ne_some.mpr
    intro info present
    rcases allocs_step present with inserts | before
    · obtain ⟨_, exits, _⟩ := of_insertion inserts
      exact notReturned exits
    · rw [absent] at before
      cases before
  · obtain ⟨outcome, content, _⟩ := step_refines rodata (runEvents rodata resize.before)
      ⟨resize.ctx, .enter resize.call⟩
    have allocs := Tables.step_enter_allocs rodata outcome (runEvents rodata resize.before).tables
      resize.ctx resize.call
    rw [← content, resize.resizes] at allocs
    exact (congrFun allocs resize.address).trans (forget_self _ _)

/-- The exit inserts nothing. -/
theorem exit_inserts_nothing (resize : FailedResize rodata) :
    insertion resize.pending ⟨resize.exitCtx, .exit resize.call.fn⟩ = none := by
  apply Option.eq_none_iff_forall_ne_some.mpr
  rintro ⟨address, info⟩ inserts
  obtain ⟨_, exits, _, recordable, _⟩ := of_insertion inserts
  rcases resize.fails with ⟨isRealloc, _, failed⟩ | ⟨isMremap, failed⟩
  · rw [isRealloc] at exits
    obtain rfl : resize.exitCtx.rc = address := by simpa [Event.exitAddress] using exits
    exact recordable.1 failed
  · rw [isMremap] at exits
    obtain rfl : resize.exitCtx.rc = address := by simpa [Event.exitAddress] using exits
    exact recordable.2 failed

/-- The exit leaves the records as it finds them. -/
theorem after_allocs (resize : FailedResize rodata) :
    resize.after.allocs.lookup = resize.pending.allocs.lookup := by
  unfold after
  rw [step_exit_allocs_inserted, exit_inserts_nothing]
  rfl

/-- A block whose resize has failed is no longer recorded. -/
theorem forgotten_after (resize : FailedResize rodata) :
    resize.after.allocs.lookup resize.address = none := by
  rw [after_allocs, forgotten_pending]

end FailedResize

/-- No failed resize leaves the tracking intact. -/
theorem failed_resize_not_intact
    (rodata : Rodata)
    (resize : FailedResize rodata) :
    ¬resize.Intact := by
  intro intact
  obtain ⟨info, found, _⟩ := intact.kept
  rw [resize.forgotten_after] at found
  cases found

/-- A block of 100 bytes at 4096 and a `realloc` of it to 200 bytes that
returns no block. -/
def failedRealloc : FailedResize (.main 4096) where
  before := [⟨.quiet 1 0, .enter (.malloc 100)⟩, ⟨.quiet 1 4096, .exit .malloc⟩]
  ctx := .quiet 1 0
  call := .realloc 4096 200
  address := 4096
  during := []
  exitCtx := .quiet 1 0
  calls := _
  inner := _
  record := _
  flatBefore :=
    .cons ⟨.enter _ _ _, Nesting.flat_update Nesting.flat_none _ (by decide)⟩
      (.cons ⟨.exit _ _ (.malloc 100) [] rfl,
        Nesting.flat_update (Nesting.flat_update Nesting.flat_none _ (by decide)) _
          (by decide)⟩ (.nil _))
  outermost := by decide
  flatDuring := .nil _
  resizes := rfl
  recorded := rfl
  otherThreads := by simp
  stillAllocated := trivial
  sameThread := rfl
  fails := .inl ⟨rfl, by decide, rfl⟩

/-- The block is still allocated and no longer recorded. -/
theorem failedRealloc_not_intact :
    ¬∀ (rodata : Rodata) (resize : FailedResize rodata), resize.Intact := by
  intro general
  obtain ⟨info, found, _⟩ := (general _ failedRealloc).kept
  have forgotten : failedRealloc.after.allocs.lookup 4096 = none := by
    decide
  have recorded : failedRealloc.after.allocs.lookup 4096 = some info := found
  rw [forgotten] at recorded
  cases recorded

end Memleak
end EbpfHub
