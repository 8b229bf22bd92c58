import EbpfHub.Memleak.Calls

/-!
# Tracking refines the heap

The heap as the traced program knows it: which call each thread is inside, and
which blocks it owns with the size that it asked for.  As long as the calls of
a thread are not nested, the map `allocs` is a part of that heap.
-/

namespace EbpfHub
namespace Memleak

open Foundations

/-- The calls in progress and the owned blocks. -/
structure Heap where
  inCall : U32 → Option Call
  owned : U64 → Option Nat

namespace Heap

/-- The heap before the first call. -/
def empty : Heap where
  inCall := fun _ => none
  owned := fun _ => none

/-- A thread enters a call, which may give up a block. -/
def enter (heap : Heap) (tid : U32) (call : Call) : Heap where
  inCall := Function.update heap.inCall tid (some call)
  owned := forget call.released heap.owned

/-- A call returns to its thread, with a block or without. -/
def exit (heap : Heap) (tid : U32) (call : Call) (address : U64) : Heap where
  inCall := Function.update heap.inCall tid none
  owned :=
    if Recordable address then Function.update heap.owned address (some call.requested)
    else heap.owned

/-- A block is released. -/
def release (heap : Heap) (address : U64) : Heap :=
  { heap with owned := forget (some address) heap.owned }

@[simp] theorem enter_inCall (heap : Heap) (tid : U32) (call : Call) :
    (heap.enter tid call).inCall = Function.update heap.inCall tid (some call) := rfl

@[simp] theorem enter_owned (heap : Heap) (tid : U32) (call : Call) :
    (heap.enter tid call).owned = forget call.released heap.owned := rfl

@[simp] theorem exit_inCall (heap : Heap) (tid : U32) (call : Call) (address : U64) :
    (heap.exit tid call address).inCall = Function.update heap.inCall tid none := rfl

@[simp] theorem exit_owned (heap : Heap) (tid : U32) (call : Call) (address : U64) :
    (heap.exit tid call address).owned =
      if Recordable address then Function.update heap.owned address (some call.requested)
      else heap.owned := rfl

theorem exit_owned_of_ne
    (heap : Heap)
    (tid : U32)
    (call : Call)
    {address other : U64}
    (elsewhere : ¬(Recordable address ∧ other = address)) :
    (heap.exit tid call address).owned other = heap.owned other := by
  rw [exit_owned]
  split
  · next recordable =>
      apply Function.update_of_ne
      rintro rfl
      exact elsewhere ⟨recordable, rfl⟩
  · rfl

@[simp] theorem release_inCall (heap : Heap) (address : U64) :
    (heap.release address).inCall = heap.inCall := rfl

@[simp] theorem release_owned (heap : Heap) (address : U64) :
    (heap.release address).owned = forget (some address) heap.owned := rfl

/-- The events that a program and its allocator can produce.  A thread is in at
most one allocation call; an exit returns a block that is not owned, and none
when the requested size overflows.  A block is owned from the exit that returns
it to the entry that gives it up, which for `realloc` and `mremap` is their
own. -/
inductive Step : Heap → Event → Heap → Prop
  | enter (heap : Heap) (ctx : Context) (call : Call) :
      heap.inCall ctx.tid = none →
      call.fn ≠ .posixMemalign →
      Step heap ⟨ctx, .enter call⟩ (heap.enter ctx.tid call)
  | exit (heap : Heap) (ctx : Context) (call : Call) :
      heap.inCall ctx.tid = some call →
      (Recordable ctx.rc → heap.owned ctx.rc = none) →
      (call.Overflows → ¬Recordable ctx.rc) →
      Step heap ⟨ctx, .exit call.fn⟩ (heap.exit ctx.tid call ctx.rc)
  | release (heap : Heap) (ctx : Context) (call : Release) :
      Step heap ⟨ctx, .release call⟩ (heap.release call.address)

/-- A heap of the program and the maps that track it.  The first parts hold
whatever updates fail: no entry of the maps is wrong.  The last two say that no
entry is missing, unless an update has failed. -/
structure Tracks (rodata : Rodata) (heap : Heap) (maps : Maps) : Prop where
  traced : ∀ tid call, heap.inCall tid = some call → call.fn ≠ .posixMemalign
  slots : ∀ tid sinfo, (maps.tables.threads tid).slot = some sinfo →
    ∃ call, heap.inCall tid = some call ∧ sinfo.size = call.size
  records : ∀ address info, maps.tables.allocs address = some info →
    heap.owned address = some info.size.toNat
  captured : maps.failedUpdates = 0 → ∀ tid call, heap.inCall tid = some call →
    rodata.minSize.toNat ≤ call.size.toNat → call.size.toNat ≤ rodata.maxSize.toNat →
    (maps.tables.threads tid).slot ≠ none
  recorded : maps.failedUpdates = 0 → ∀ address requested,
    heap.owned address = some requested →
    rodata.minSize.toNat ≤ requested → requested ≤ rodata.maxSize.toNat →
    maps.tables.allocs address ≠ none

variable {rodata : Rodata} {heap : Heap} {maps : Maps}

theorem Tracks.empty : Tracks rodata Heap.empty Maps.empty where
  traced := by
    intro tid call inside
    cases inside
  slots := by
    intro tid sinfo found
    rw [Maps.tables_empty] at found
    cases found
  records := by
    intro address info found
    rw [Maps.tables_empty] at found
    cases found
  captured := by
    intro _ tid call inside
    cases inside
  recorded := by
    intro _ address requested owned
    cases owned

/-- A thread outside all calls has no entry in `sizes`. -/
theorem Tracks.slot_of_idle
    (tracks : heap.Tracks rodata maps)
    {tid : U32}
    (idle : heap.inCall tid = none) :
    (maps.tables.threads tid).slot = none := by
  cases slot : (maps.tables.threads tid).slot with
  | none => rfl
  | some sinfo =>
      obtain ⟨call, inside, _⟩ := tracks.slots tid sinfo slot
      rw [idle] at inside
      cases inside

/-- An address that the program does not own carries no record. -/
theorem Tracks.allocs_of_not_owned
    (tracks : heap.Tracks rodata maps)
    {address : U64}
    (fresh : heap.owned address = none) :
    maps.tables.allocs address = none := by
  cases found : maps.tables.allocs address with
  | none => rfl
  | some info =>
      have owned := tracks.records address info found
      rw [fresh] at owned
      cases owned

/-- The entry of a call on an idle thread fills the slot for this call and
disowns what a resizing call gives up. -/
theorem Tracks.enter
    (rate : rodata.sampleRate = 1)
    (tracks : heap.Tracks rodata maps)
    (ctx : Context)
    (call : Call)
    (idle : heap.inCall ctx.tid = none)
    (plain : call.fn ≠ .posixMemalign) :
    Tracks rodata (heap.enter ctx.tid call)
      (Memleak.step rodata maps ⟨ctx, .enter call⟩) := by
  obtain ⟨outcome, content, grows, success⟩ := step_refines rodata maps ⟨ctx, .enter call⟩
  have emptySlot : (maps.tables.threads ctx.tid).slot = none := tracks.slot_of_idle idle
  have filled : ((Memleak.step rodata maps ⟨ctx, .enter call⟩).tables.threads ctx.tid).slot =
      if outcome.sizes then captureOf rodata ctx call.size else none := by
    rw [content]
    simp [Event.tid, Event.next, emptySlot]
  have others : ∀ tid, tid ≠ ctx.tid →
      (Memleak.step rodata maps ⟨ctx, .enter call⟩).tables.threads tid =
        maps.tables.threads tid :=
    fun _ different => threads_step_of_ne rodata maps different
  have allocs : (Memleak.step rodata maps ⟨ctx, .enter call⟩).tables.allocs =
      forget call.released maps.tables.allocs := by
    rw [content, Tables.step_enter_allocs]
  refine ⟨?_, ?_, ?_, ?_, ?_⟩
  · intro tid other inside
    by_cases same : tid = ctx.tid
    · subst same
      rw [enter_inCall, Function.update_self] at inside
      obtain rfl := Option.some.inj inside
      exact plain
    · rw [enter_inCall, Function.update_of_ne same] at inside
      exact tracks.traced tid other inside
  · intro tid sinfo slot
    by_cases same : tid = ctx.tid
    · subst same
      rw [filled] at slot
      split at slot
      · exact ⟨call, Function.update_self _ _ _, captureOf_size slot⟩
      · cases slot
    · rw [others tid same] at slot
      obtain ⟨other, inside, recorded⟩ := tracks.slots tid sinfo slot
      refine ⟨other, ?_, recorded⟩
      rw [enter_inCall, Function.update_of_ne same]
      exact inside
  · intro address info found
    rw [allocs] at found
    obtain ⟨kept, before⟩ := of_forget_eq_some found
    rw [enter_owned, forget_of_ne kept]
    exact tracks.records address info before
  · intro noFailure tid other inside lower upper
    by_cases same : tid = ctx.tid
    · subst same
      rw [enter_inCall, Function.update_self] at inside
      obtain rfl := Option.some.inj inside
      rw [filled, success (by omega)]
      simp [captureOf, Rodata.accepts_of_bounds rate lower upper, Outcome.success]
    · rw [enter_inCall, Function.update_of_ne same] at inside
      rw [others tid same]
      exact tracks.captured (by omega) tid other inside lower upper
  · intro noFailure address requested owned lower upper
    rw [enter_owned] at owned
    obtain ⟨kept, before⟩ := of_forget_eq_some owned
    rw [allocs, forget_of_ne kept]
    exact tracks.recorded (by omega) address requested before lower upper

section Exit

variable {ctx : Context} {call : Call}

/-- The exit of a call in progress reaches `gen_alloc_exit2` with the pointer
that it returns. -/
theorem Tracks.exitAddress
    (tracks : heap.Tracks rodata maps)
    (inside : heap.inCall ctx.tid = some call) :
    Event.exitAddress ⟨ctx, .exit call.fn⟩ (maps.tables.threads ctx.tid) = some ctx.rc := by
  simp [Event.exitAddress, tracks.traced ctx.tid call inside]

/-- What the exit records under the returned address has the requested size. -/
theorem Tracks.exit_records_requested
    (tracks : heap.Tracks rodata maps)
    (inside : heap.inCall ctx.tid = some call)
    (fresh : heap.owned ctx.rc = none)
    (fits : ¬call.Overflows)
    {outcome : Outcome}
    {info : AllocInfo}
    (found : (maps.tables.step rodata outcome ⟨ctx, .exit call.fn⟩).allocs ctx.rc = some info) :
    info.size.toNat = call.requested := by
  rw [Tables.step_exit_allocs rodata outcome maps.tables (tracks.exitAddress inside)] at found
  cases slot : (maps.tables.threads ctx.tid).slot with
  | none =>
      simp only [Event.tid, slot, tracks.allocs_of_not_owned fresh] at found
      cases found
  | some sinfo =>
      obtain ⟨other, insideOther, size⟩ := tracks.slots ctx.tid sinfo slot
      obtain rfl : call = other := Option.some.inj (inside.symm.trans insideOther)
      simp only [Event.tid, slot] at found
      split at found
      · rw [Function.update_self] at found
        obtain rfl := Option.some.inj found
        rw [← Call.size_toNat_of_not_overflows fits, ← size]
        rfl
      · rw [tracks.allocs_of_not_owned fresh] at found
        cases found

/-- Unless an update fails, the exit of a call within the size bounds records the
block that it returns. -/
theorem Tracks.exit_recorded
    (tracks : heap.Tracks rodata maps)
    (inside : heap.inCall ctx.tid = some call)
    (recordable : Recordable ctx.rc)
    (noFailure : maps.failedUpdates = 0)
    (lower : rodata.minSize.toNat ≤ call.size.toNat)
    (upper : call.size.toNat ≤ rodata.maxSize.toNat) :
    (maps.tables.step rodata .success ⟨ctx, .exit call.fn⟩).allocs ctx.rc ≠ none := by
  rw [Tables.step_exit_allocs rodata .success maps.tables (tracks.exitAddress inside)]
  cases slot : (maps.tables.threads ctx.tid).slot with
  | none => exact absurd slot (tracks.captured noFailure ctx.tid call inside lower upper)
  | some sinfo => simp [Event.tid, slot, recordable, Outcome.success]

/-- The exit of a call empties the slot and records the returned block with the
size that this call requested. -/
theorem Tracks.exit
    (tracks : heap.Tracks rodata maps)
    (inside : heap.inCall ctx.tid = some call)
    (fresh : Recordable ctx.rc → heap.owned ctx.rc = none)
    (overflow : call.Overflows → ¬Recordable ctx.rc) :
    Tracks rodata (heap.exit ctx.tid call ctx.rc)
      (Memleak.step rodata maps ⟨ctx, .exit call.fn⟩) := by
  obtain ⟨outcome, content, grows, success⟩ := step_refines rodata maps ⟨ctx, .exit call.fn⟩
  have exits := tracks.exitAddress inside
  have fits : Recordable ctx.rc → ¬call.Overflows :=
    fun recordable overflows => overflow overflows recordable
  have others : ∀ tid, tid ≠ ctx.tid →
      (Memleak.step rodata maps ⟨ctx, .exit call.fn⟩).tables.threads tid =
        maps.tables.threads tid :=
    fun _ different => threads_step_of_ne rodata maps different
  have emptied : ((Memleak.step rodata maps ⟨ctx, .exit call.fn⟩).tables.threads ctx.tid).slot =
      none := by
    rw [content]
    simp [Event.tid, Event.next, exits]
  refine ⟨?_, ?_, ?_, ?_, ?_⟩
  · intro tid other insideOther
    by_cases same : tid = ctx.tid
    · subst same
      rw [exit_inCall, Function.update_self] at insideOther
      cases insideOther
    · rw [exit_inCall, Function.update_of_ne same] at insideOther
      exact tracks.traced tid other insideOther
  · intro tid sinfo slot
    by_cases same : tid = ctx.tid
    · subst same
      rw [emptied] at slot
      cases slot
    · rw [others tid same] at slot
      obtain ⟨other, insideOther, recorded⟩ := tracks.slots tid sinfo slot
      refine ⟨other, ?_, recorded⟩
      rw [exit_inCall, Function.update_of_ne same]
      exact insideOther
  · intro address info found
    rw [content] at found
    by_cases returned : Recordable ctx.rc ∧ address = ctx.rc
    · obtain ⟨recordable, rfl⟩ := returned
      rw [exit_owned, if_pos recordable, Function.update_self]
      exact congrArg some (tracks.exit_records_requested inside (fresh recordable)
        (fits recordable) found).symm
    · rw [Tables.step_exit_allocs_of_ne rodata outcome _ exits returned] at found
      rw [exit_owned_of_ne heap ctx.tid call returned]
      exact tracks.records address info found
  · intro noFailure tid other insideOther lower upper
    by_cases same : tid = ctx.tid
    · subst same
      rw [exit_inCall, Function.update_self] at insideOther
      cases insideOther
    · rw [exit_inCall, Function.update_of_ne same] at insideOther
      rw [others tid same]
      exact tracks.captured (by omega) tid other insideOther lower upper
  · intro noFailure address requested owned lower upper
    rw [content, success (by omega)]
    by_cases returned : Recordable ctx.rc ∧ address = ctx.rc
    · obtain ⟨recordable, rfl⟩ := returned
      rw [exit_owned, if_pos recordable, Function.update_self] at owned
      obtain rfl := Option.some.inj owned
      rw [← Call.size_toNat_of_not_overflows (fits recordable)] at lower upper
      exact tracks.exit_recorded inside recordable (by omega) lower upper
    · rw [exit_owned_of_ne heap ctx.tid call returned] at owned
      rw [Tables.step_exit_allocs_of_ne rodata .success _ exits returned]
      exact tracks.recorded (by omega) address requested owned lower upper

end Exit

/-- A release disowns a block and forgets its record. -/
theorem Tracks.release
    (tracks : heap.Tracks rodata maps)
    (ctx : Context)
    (call : Release) :
    Tracks rodata (heap.release call.address)
      (Memleak.step rodata maps ⟨ctx, .release call⟩) := by
  obtain ⟨outcome, content, grows, _⟩ := step_refines rodata maps ⟨ctx, .release call⟩
  have threads : (Memleak.step rodata maps ⟨ctx, .release call⟩).tables.threads =
      maps.tables.threads := by
    rw [content, Tables.step_threads]
    exact Function.update_eq_self _ _
  have allocs : (Memleak.step rodata maps ⟨ctx, .release call⟩).tables.allocs =
      forget (some call.address) maps.tables.allocs := by
    rw [content, Tables.step_release_allocs]
  refine ⟨tracks.traced, ?_, ?_, ?_, ?_⟩
  · rw [threads]
    exact tracks.slots
  · intro address info found
    rw [allocs] at found
    obtain ⟨kept, before⟩ := of_forget_eq_some found
    rw [release_owned, forget_of_ne kept]
    exact tracks.records address info before
  · intro noFailure
    rw [threads]
    exact tracks.captured (by omega)
  · intro noFailure address requested owned lower upper
    rw [release_owned] at owned
    obtain ⟨kept, before⟩ := of_forget_eq_some owned
    rw [allocs, forget_of_ne kept]
    exact tracks.recorded (by omega) address requested before lower upper

/-- One event of the program and its allocator keeps the maps tracking the
heap. -/
theorem Tracks.step
    (rate : rodata.sampleRate = 1)
    {event : Event}
    {next : Heap}
    (allowed : Step heap event next)
    (tracks : heap.Tracks rodata maps) :
    next.Tracks rodata (Memleak.step rodata maps event) := by
  cases allowed with
  | enter ctx call idle plain => exact tracks.enter rate ctx call idle plain
  | exit ctx call inside fresh overflow => exact tracks.exit inside fresh overflow
  | release ctx call => exact tracks.release ctx call

/-- The maps track the heap at every point of a run. -/
theorem Tracks.run
    (rate : rodata.sampleRate = 1)
    {events : List Event}
    (trace : Trace Step Heap.empty events heap) :
    heap.Tracks rodata (runEvents rodata events) :=
  trace.simulation (Memleak.step rodata) (Tracks rodata)
    (fun allowed tracks => Tracks.step rate allowed tracks) Tracks.empty

end Heap

/-- On runs without nesting the maps are a part of the heap: an entry of `sizes`
carries the size of the call its thread is in, a key of `allocs` is an owned
block with the size that its own call requested, whatever updates fail; and
when none has failed, no owned block within the size bounds is missing. -/
theorem tracking_refines_heap
    (rodata : Rodata)
    (rate : rodata.sampleRate = 1)
    (events : List Event)
    (heap : Heap)
    (trace : Trace Heap.Step Heap.empty events heap) :
    (∀ tid sinfo, (runEvents rodata events).sizes.lookup tid = some sinfo →
      ∃ call, heap.inCall tid = some call ∧ sinfo.size = call.size) ∧
    (∀ address info, (runEvents rodata events).allocs.lookup address = some info →
      heap.owned address = some info.size.toNat) ∧
    ((runEvents rodata events).failedUpdates = 0 →
      ∀ address requested, heap.owned address = some requested →
        rodata.minSize.toNat ≤ requested → requested ≤ rodata.maxSize.toNat →
        address ∈ (runEvents rodata events).allocs.keys) := by
  have tracks := Heap.Tracks.run rate trace
  refine ⟨tracks.slots, tracks.records, ?_⟩
  intro noFailure address requested owned lower upper
  have present := tracks.recorded noFailure address requested owned lower upper
  obtain ⟨info, found⟩ := Option.ne_none_iff_exists'.mp present
  exact ((runEvents rodata events).allocs.mem_keys_iff address).mpr ⟨info, found⟩

/-- Two threads allocate at the same time.  The second releases its block and
allocates again while the first resizes its own. -/
def twoThreads : List Event :=
  [⟨.quiet 1 0, .enter (.malloc 100)⟩, ⟨.quiet 2 0, .enter (.malloc 32)⟩,
    ⟨.quiet 2 8192, .exit .malloc⟩, ⟨.quiet 1 4096, .exit .malloc⟩,
    ⟨.quiet 2 0, .release (.free 8192)⟩, ⟨.quiet 1 0, .enter (.realloc 4096 200)⟩,
    ⟨.quiet 2 0, .enter (.malloc 48)⟩, ⟨.quiet 1 12288, .exit .realloc⟩]

theorem tracking_refines_heap_twoThreads :
    (∀ sinfo, (runEvents (.main 4096) twoThreads).sizes.lookup 2 = some sinfo →
      sinfo.size = 48) ∧
    (4096 : U64) ∉ (runEvents (.main 4096) twoThreads).allocs.keys ∧
    (12288 : U64) ∈ (runEvents (.main 4096) twoThreads).allocs.keys := by
  have trace : Trace Heap.Step Heap.empty twoThreads
      (((((((((Heap.empty.enter 1 (.malloc 100)).enter 2 (.malloc 32)).exit 2 (.malloc 32)
        8192).exit 1 (.malloc 100) 4096).release 8192).enter 1 (.realloc 4096 200)).enter 2
          (.malloc 48)).exit 1 (.realloc 4096 200) 12288)) :=
    .cons (.enter _ (.quiet 1 0) (.malloc 100) rfl (by decide))
      (.cons (.enter _ (.quiet 2 0) (.malloc 32) rfl (by decide))
      (.cons (.exit _ (.quiet 2 8192) (.malloc 32) rfl (fun _ => rfl) (by decide))
      (.cons (.exit _ (.quiet 1 4096) (.malloc 100) rfl (fun _ => rfl) (by decide))
      (.cons (.release _ (.quiet 2 0) (.free 8192))
      (.cons (.enter _ (.quiet 1 0) (.realloc 4096 200) rfl (by decide))
      (.cons (.enter _ (.quiet 2 0) (.malloc 48) rfl (by decide))
      (.cons (.exit _ (.quiet 1 12288) (.realloc 4096 200) rfl (fun _ => rfl) (by decide))
        (.nil _))))))))
  obtain ⟨slots, records, recorded⟩ := tracking_refines_heap (.main 4096) rfl _ _ trace
  refine ⟨fun sinfo slot => ?_, fun member => ?_, ?_⟩
  · obtain ⟨call, inside, size⟩ := slots 2 sinfo slot
    rw [size, ← Option.some.inj inside]
    rfl
  · obtain ⟨info, found⟩ := (BoundedMap.mem_keys_iff _ _).mp member
    cases records 4096 info found
  · exact recorded (by decide) 12288 200 rfl (by decide) (by decide)

end Memleak
end EbpfHub
