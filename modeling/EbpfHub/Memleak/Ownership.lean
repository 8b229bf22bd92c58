import EbpfHub.Memleak.HeapTracking
import EbpfHub.Memleak.Resize

/-!
# What the traced program owns

A call that resizes a block takes it from the program and, when it fails, gives
it back.  The maps forget the block at the entry of the call.  So the heap that
they track is what the program owns, except the blocks that it was given back.
-/

namespace EbpfHub
namespace Memleak

open Foundations

instance (call : Call) (ctx : Context) : Decidable (call.FailsResize ctx) :=
  inferInstanceAs (Decidable (_ ∨ _))

/-- The calls in progress, the blocks that the program owns with the sizes that it
asked for, the blocks that calls in progress resize, and the blocks that a call
has failed to resize since they were allocated. -/
structure Estate where
  inCall : U32 → Option Call
  owned : U64 → Option Nat
  resizing : U32 → Option (U64 × Nat)
  inVain : U64 → Bool

namespace Estate

/-- The estate before the first call. -/
def empty : Estate where
  inCall := fun _ => none
  owned := fun _ => none
  resizing := fun _ => none
  inVain := fun _ => false

/-- A thread enters a call, which may take a block to resize it. -/
def enter (estate : Estate) (tid : U32) (call : Call) : Estate where
  inCall := Function.update estate.inCall tid (some call)
  owned := forget call.released estate.owned
  resizing := Function.update estate.resizing tid
    (call.released.bind fun address => (estate.owned address).map fun size => (address, size))
  inVain := estate.inVain

/-- The block that the program owns when a call has returned: its old one when the
call has failed to resize it, and otherwise the one that is returned. -/
def gained (estate : Estate) (ctx : Context) (call : Call) : Option (U64 × Nat) :=
  if call.FailsResize ctx then estate.resizing ctx.tid
  else if Recordable ctx.rc then some (ctx.rc, call.requested)
  else none

/-- A call returns to its thread. -/
def exit (estate : Estate) (ctx : Context) (call : Call) : Estate where
  inCall := Function.update estate.inCall ctx.tid none
  owned :=
    match estate.gained ctx call with
    | none => estate.owned
    | some (address, size) => Function.update estate.owned address (some size)
  resizing := Function.update estate.resizing ctx.tid none
  inVain :=
    match estate.gained ctx call with
    | none => estate.inVain
    | some (address, _) =>
        Function.update estate.inVain address (decide (call.FailsResize ctx))

/-- A block is released. -/
def release (estate : Estate) (address : U64) : Estate :=
  { estate with owned := forget (some address) estate.owned }

/-- The events that a program and its allocator can produce.  A thread is in at
most one allocation call, which is not `posix_memalign`.  The block with which a
call returns is not owned, so a block is not allocated again while a call that
fails to resize it has it.  There is no block when the requested size
overflows. -/
inductive Step : Estate → Event → Estate → Prop
  | enter (estate : Estate) (ctx : Context) (call : Call) :
      estate.inCall ctx.tid = none →
      call.fn ≠ .posixMemalign →
      Step estate ⟨ctx, .enter call⟩ (estate.enter ctx.tid call)
  | exit (estate : Estate) (ctx : Context) (call : Call) :
      estate.inCall ctx.tid = some call →
      (∀ address size, estate.gained ctx call = some (address, size) →
        estate.owned address = none) →
      (call.Overflows → ¬Recordable ctx.rc) →
      Step estate ⟨ctx, .exit call.fn⟩ (estate.exit ctx call)
  | release (estate : Estate) (ctx : Context) (call : Release) :
      Step estate ⟨ctx, .release call⟩ (estate.release call.address)

/-- The owned blocks that no call has failed to resize. -/
def counted (estate : Estate) (address : U64) : Option Nat :=
  if estate.inVain address then none else estate.owned address

/-- The heap that the maps track. -/
def heap (estate : Estate) : Heap where
  inCall := estate.inCall
  owned := estate.counted

theorem counted_of_owned_eq_none
    {estate : Estate}
    {address : U64}
    (free : estate.owned address = none) :
    estate.counted address = none := by
  rw [counted, free, ite_self]

/-- What is forgotten is not counted. -/
theorem counted_forget (estate : Estate) (released : Option U64) (address : U64) :
    (if estate.inVain address then none else forget released estate.owned address) =
      forget released estate.counted address := by
  by_cases same : released = some address
  · rw [same, forget_self, forget_self, ite_self]
  · rw [forget_of_ne same, forget_of_ne same]
    rfl

theorem heap_enter (estate : Estate) (tid : U32) (call : Call) :
    (estate.enter tid call).heap = estate.heap.enter tid call :=
  congrArg (Heap.mk _) (funext (estate.counted_forget call.released))

theorem heap_release (estate : Estate) (address : U64) :
    (estate.release address).heap = estate.heap.release address :=
  congrArg (Heap.mk _) (funext (estate.counted_forget (some address)))

/-- A call that fails to resize returns no block that is recorded. -/
theorem not_recordable_of_failsResize
    {call : Call}
    {ctx : Context}
    (fails : call.FailsResize ctx) :
    ¬Recordable ctx.rc := by
  rintro ⟨nonzero, mapped⟩
  rcases fails with ⟨-, -, zero⟩ | ⟨-, failed⟩
  · exact nonzero zero
  · exact mapped failed

section Exit

variable {estate : Estate} {ctx : Context} {call : Call}

theorem counted_exit_of_none (gained : estate.gained ctx call = none) :
    (estate.exit ctx call).counted = estate.counted := by
  unfold Estate.exit
  rw [gained]
  rfl

variable {block : U64} {size : Nat}

/-- The block that the program owns when a call has returned is counted if the call
has not failed. -/
theorem counted_exit_self (gained : estate.gained ctx call = some (block, size)) :
    (estate.exit ctx call).counted block = if call.FailsResize ctx then none else some size := by
  have owned : (estate.exit ctx call).owned block = some size := by
    unfold Estate.exit
    rw [gained]
    exact Function.update_self ..
  have inVain : (estate.exit ctx call).inVain block = decide (call.FailsResize ctx) := by
    unfold Estate.exit
    rw [gained]
    exact Function.update_self ..
  simp only [counted, owned, inVain, decide_eq_true_eq]

theorem counted_exit_of_ne
    (gained : estate.gained ctx call = some (block, size))
    {address : U64}
    (different : address ≠ block) :
    (estate.exit ctx call).counted address = estate.counted address := by
  have owned : (estate.exit ctx call).owned address = estate.owned address := by
    unfold Estate.exit
    rw [gained]
    exact Function.update_of_ne different ..
  have inVain : (estate.exit ctx call).inVain address = estate.inVain address := by
    unfold Estate.exit
    rw [gained]
    exact Function.update_of_ne different ..
  rw [counted, counted, owned, inVain]

/-- A failed resize leaves the tracked blocks as they are, and any other call adds
the block that it returns. -/
theorem counted_exit
    (fresh : ∀ address size, estate.gained ctx call = some (address, size) →
      estate.owned address = none) :
    (estate.exit ctx call).counted =
      if Recordable ctx.rc then
        Function.update estate.counted ctx.rc (some call.requested)
      else estate.counted := by
  by_cases fails : call.FailsResize ctx
  · rw [if_neg (not_recordable_of_failsResize fails)]
    cases gained : estate.gained ctx call with
    | none => exact counted_exit_of_none gained
    | some block =>
        funext address
        by_cases same : address = block.1
        · subst same
          rw [counted_exit_self gained, if_pos fails]
          exact (counted_of_owned_eq_none (fresh block.1 block.2 gained)).symm
        · exact counted_exit_of_ne gained same
  · split
    · next recordable =>
        have gained : estate.gained ctx call = some (ctx.rc, call.requested) := by
          rw [Estate.gained, if_neg fails, if_pos recordable]
        funext address
        by_cases same : address = ctx.rc
        · subst same
          rw [counted_exit_self gained, if_neg fails, Function.update_self]
        · rw [counted_exit_of_ne gained same, Function.update_of_ne same]
    · next unrecorded =>
        refine counted_exit_of_none ?_
        rw [Estate.gained, if_neg fails, if_neg unrecorded]

end Exit

/-- What the program and its allocator do is something that the tracked heap
allows. -/
theorem heap_step
    {estate next : Estate}
    {event : Event}
    (allowed : Step estate event next) :
    Heap.Step estate.heap event next.heap := by
  cases allowed with
  | enter ctx call idle plain =>
      rw [heap_enter]
      exact .enter _ ctx call idle plain
  | exit ctx call inside fresh overflow =>
      have left : (estate.exit ctx call).heap = estate.heap.exit ctx.tid call ctx.rc :=
        congrArg (Heap.mk _) (counted_exit fresh)
      rw [left]
      refine .exit _ ctx call inside (fun recordable => counted_of_owned_eq_none ?_) overflow
      have succeeds : ¬call.FailsResize ctx := fun fails =>
        not_recordable_of_failsResize fails recordable
      refine fresh ctx.rc call.requested ?_
      rw [gained, if_neg succeeds, if_pos recordable]
  | release ctx call =>
      rw [heap_release]
      exact .release _ ctx call

/-- The tracked heap follows the estate along a run. -/
theorem heap_trace
    {events : List Event}
    {estate : Estate}
    (trace : Trace Step empty events estate) :
    Trace Heap.Step Heap.empty events estate.heap :=
  trace.map heap heap_step

end Estate

end Memleak
end EbpfHub
