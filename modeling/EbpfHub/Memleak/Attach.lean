import EbpfHub.Memleak.Calls
import EbpfHub.Memleak.Provenance

/-!
# Attaching to a running target

`attach_uprobes` attaches its programs one after the other while the threads of
the target keep calling the probed functions.  A call is seen by the programs
that were attached when it began, so its entry may be reported and its exit not.
-/

namespace EbpfHub
namespace Memleak

open Foundations

/-- The functions that release a block and are probed on entry. -/
inductive ReleaseFn
  | free | munmap | operatorDelete | operatorDeleteSized | operatorDeleteArray
  | operatorDeleteArraySized
  deriving DecidableEq

/-- The function that a release calls. -/
def Release.fn : Release → ReleaseFn
  | .free _ => .free
  | .munmap _ => .munmap
  | .operatorDelete _ => .operatorDelete
  | .operatorDeleteSized _ _ => .operatorDeleteSized
  | .operatorDeleteArray _ => .operatorDeleteArray
  | .operatorDeleteArraySized _ _ => .operatorDeleteArraySized

/-- The uprobe and uretprobe programs. -/
inductive Program
  | enter (fn : AllocFn)
  | exit (fn : AllocFn)
  | release (fn : ReleaseFn)
  deriving DecidableEq

/-- The programs in the order in which `attach_uprobes` attaches them, to
`libc.so.6` and then to `libstdc++.so.6` or to the executable. -/
def attachUprobes : List Program :=
  [ .enter .malloc, .exit .malloc,
    .enter .calloc, .exit .calloc,
    .enter .realloc, .exit .realloc,
    .enter .mmap, .exit .mmap,
    .enter .mremap, .exit .mremap,
    .enter .posixMemalign, .exit .posixMemalign,
    .enter .memalign, .exit .memalign,
    .release .free, .release .munmap,
    .enter .valloc, .exit .valloc,
    .enter .pvalloc, .exit .pvalloc,
    .enter .alignedAlloc, .exit .alignedAlloc,
    .enter .operatorNew, .exit .operatorNew,
    .enter .operatorNewArray, .exit .operatorNewArray,
    .release .operatorDelete, .release .operatorDeleteSized,
    .release .operatorDeleteArray, .release .operatorDeleteArraySized ]

/-- A call in progress: what its entry program sees, whether its exit will be
reported, and whether it began on a thread with an entry of an earlier call. -/
structure PendingCall where
  call : Call
  ctx : Context
  reportsExit : Bool
  interrupted : Bool

/-- The target and the loader: how many programs are attached, the call that
each thread is in, the latest call that returned each address, and the maps. -/
structure Target where
  attached : Nat
  pending : U32 → Option PendingCall
  returned : U64 → Option PendingCall
  maps : Maps

namespace Target

/-- Nothing is attached and no call has begun. -/
def start : Target where
  attached := 0
  pending := fun _ => none
  returned := fun _ => none
  maps := .empty

/-- The program has been attached. -/
def Attached (target : Target) (program : Program) : Prop :=
  program ∈ attachUprobes.take target.attached

instance (target : Target) (program : Program) : Decidable (target.Attached program) :=
  inferInstanceAs (Decidable (_ ∈ _))

/-- An earlier call of the thread has left an entry that the entry program of
this call will not replace. -/
def Interrupted (maps : Maps) (ctx : Context) (call : Call) : Prop :=
  maps.sizes.lookup ctx.tid ≠ none ∨
    call.memptr ≠ none ∧ maps.memptrs.lookup ctx.tid ≠ none ∧ ctx.faults.memptrs = true

instance (maps : Maps) (ctx : Context) (call : Call) : Decidable (Interrupted maps ctx call) :=
  inferInstanceAs (Decidable (_ ∨ _))

/-- A call begins. -/
def beginCall (rodata : Rodata) (target : Target) (ctx : Context) (call : Call) : Target :=
  { target with
    pending := Function.update target.pending ctx.tid
      (some
        { call := call
          ctx := ctx
          reportsExit := decide (target.Attached (.exit call.fn))
          interrupted := decide (Interrupted target.maps ctx call) })
    maps :=
      if target.Attached (.enter call.fn) then step rodata target.maps ⟨ctx, .enter call⟩
      else target.maps }

/-- A call returns. -/
def finishCall
    (rodata : Rodata)
    (target : Target)
    (ctx : Context)
    (pending : PendingCall) : Target :=
  { target with
    pending := Function.update target.pending ctx.tid none
    returned := fun address =>
      if pending.call.ReturnsBlock ctx address then some pending else target.returned address
    maps :=
      if pending.reportsExit then step rodata target.maps ⟨ctx, .exit pending.call.fn⟩
      else target.maps }

/-- A block is released. -/
def release (rodata : Rodata) (target : Target) (ctx : Context) (call : Release) : Target :=
  { target with
    maps :=
      if target.Attached (.release call.fn) then step rodata target.maps ⟨ctx, .release call⟩
      else target.maps }

end Target

/-- What the loader and the threads of the target do. -/
inductive Action
  | attach
  | beginCall (ctx : Context) (call : Call)
  | finishCall (ctx : Context)
  | release (ctx : Context) (call : Release)

namespace Target

/-- The steps of a target whose calls are not nested.  A call whose requested
size overflows returns no block. -/
inductive Step (rodata : Rodata) : Target → Action → Target → Prop
  | attach (target : Target) :
      target.attached < attachUprobes.length →
      Step rodata target .attach { target with attached := target.attached + 1 }
  | beginCall (target : Target) (ctx : Context) (call : Call) :
      target.pending ctx.tid = none →
      Step rodata target (.beginCall ctx call) (target.beginCall rodata ctx call)
  | finishCall (target : Target) (ctx : Context) (pending : PendingCall) :
      target.pending ctx.tid = some pending →
      (pending.call.Overflows → ∀ address, ¬pending.call.ReturnsBlock ctx address) →
      Step rodata target (.finishCall ctx) (target.finishCall rodata ctx pending)
  | release (target : Target) (ctx : Context) (call : Release) :
      Step rodata target (.release ctx call) (target.release rodata ctx call)

/-- Every record has the size and the stack of the call that returned its
address. -/
def Faithful (target : Target) : Prop :=
  ∀ address info, target.maps.allocs.lookup address = some info →
    ∃ pending, target.returned address = some pending ∧
      info.size.toNat = pending.call.requested ∧ info.stackId = pending.ctx.stackId

/-- The exit will be reported, finds what the entry left, and its update is not
refused. -/
def Overwrites (maps : Maps) (ctx : Context) (pending : PendingCall) : Prop :=
  pending.reportsExit = true ∧ maps.sizes.lookup ctx.tid ≠ none ∧
    (pending.call.memptr ≠ none → maps.memptrs.lookup ctx.tid ≠ none) ∧
    ctx.faults.allocs = false

/-- The condition on a call that returns.  If its exit is reported and finds an
entry and an address to record, then no earlier call was in its way and the
call has stored that address; and if `allocs` still has a record of the block
it returns, the exit overwrites that. -/
structure CleanReturn (maps : Maps) (ctx : Context) (pending : PendingCall) : Prop where
  recorded : ∀ address, pending.reportsExit = true → maps.sizes.lookup ctx.tid ≠ none →
    Event.exitAddress ⟨ctx, .exit pending.call.fn⟩ (maps.tables.threads ctx.tid) = some address →
    Recordable address →
    pending.interrupted = false ∧
      (pending.call.memptr ≠ none → ctx.rc.setWidth 32 = (0 : U32))
  stale : ∀ address, pending.call.ReturnsBlock ctx address →
    maps.allocs.lookup address ≠ none →
    pending.interrupted = false ∧ Overwrites maps ctx pending

/-- The steps whose returning calls, if any, are clean. -/
def CleanStep (rodata : Rodata) (target : Target) (action : Action) (next : Target) : Prop :=
  Step rodata target action next ∧
    ∀ ctx pending, action = .finishCall ctx → target.pending ctx.tid = some pending →
      CleanReturn target.maps ctx pending

/-! ## The order of attachment -/

/-- The exit of a function is attached after its entry. -/
theorem attached_enter_of_exit
    {target : Target}
    {fn : AllocFn}
    (exit : target.Attached (.exit fn)) :
    target.Attached (.enter fn) := by
  have ordered : ∀ fn : AllocFn, ∀ count < attachUprobes.length + 1,
      Program.exit fn ∈ attachUprobes.take count →
        Program.enter fn ∈ attachUprobes.take count := by
    intro fn
    cases fn <;> decide
  unfold Attached at exit ⊢
  rcases Nat.lt_or_ge target.attached (attachUprobes.length + 1) with within | beyond
  · exact ordered fn target.attached within exit
  · rw [List.take_of_length_le (by omega)] at exit ⊢
    have all := ordered fn attachUprobes.length (by omega)
    rw [List.take_length] at all
    exact all exit

/-! ## What the programs find on the thread of a call -/

/-- What the thread has on record comes from the call it is in. -/
structure Holds (thread : ThreadState) (pending : PendingCall) : Prop where
  slot : ∀ sinfo, thread.slot = some sinfo →
    sinfo.size = pending.call.size ∧ sinfo.stackId = pending.ctx.stackId
  memptr : ∀ memptr recorded, pending.call.memptr = some memptr →
    thread.memptr = some recorded → recorded = memptr

/-- The entry program of an uninterrupted call leaves nothing but its own data
on record. -/
theorem holds_of_enter
    {rodata : Rodata}
    {maps : Maps}
    {ctx : Context}
    {call : Call}
    (uninterrupted : ¬Interrupted maps ctx call)
    (reportsExit interrupted : Bool) :
    Holds ((step rodata maps ⟨ctx, .enter call⟩).tables.threads ctx.tid)
      ⟨call, ctx, reportsExit, interrupted⟩ := by
  obtain ⟨outcome, content, _⟩ := step_refines rodata maps ⟨ctx, .enter call⟩
  obtain ⟨sizesEmpty, memptrKept⟩ := not_or.mp uninterrupted
  have empty : (maps.tables.threads ctx.tid).slot = none := not_not.mp sizesEmpty
  constructor
  · intro sinfo occupied
    rw [content, Tables.step_threads, Event.tid, Function.update_self] at occupied
    simp only [Event.next, empty, Option.none_or] at occupied
    split at occupied
    · exact ⟨captureOf_size occupied, captureOf_stackId occupied⟩
    · cases occupied
  · intro memptr recorded result found
    by_cases stale : maps.memptrs.lookup ctx.tid = none
    · have fresh : (maps.tables.threads ctx.tid).memptr = none := stale
      rw [content, Tables.step_threads, Event.tid, Function.update_self] at found
      have own : call.memptr = some memptr := result
      simp only [Event.next, fresh, own, Option.some_or] at found
      split at found
      · exact (Option.some.inj found).symm
      · cases found
    · have accepted : ctx.faults.memptrs = false := by
        by_contra refused
        exact memptrKept ⟨by rw [show call.memptr = some memptr from result]; simp, stale,
          by simpa using refused⟩
      have overwritten : (step rodata maps ⟨ctx, .enter call⟩).memptrs.lookup ctx.tid =
          some memptr :=
        step_enter_memptrs_of_present result stale accepted
      have recordedHere : (step rodata maps ⟨ctx, .enter call⟩).memptrs.lookup ctx.tid =
          some recorded := found
      rw [overwritten] at recordedHere
      exact (Option.some.inj recordedHere).symm

/-- An exit that finds its own call's data reports the address that the call
returns. -/
theorem Holds.returns_of_exitAddress
    {thread : ThreadState}
    {pending : PendingCall}
    {ctx : Context}
    {address : U64}
    (holds : Holds thread pending)
    (exits : Event.exitAddress ⟨ctx, .exit pending.call.fn⟩ thread = some address) :
    pending.call.returns ctx = some address := by
  unfold Call.returns
  have isMemalign := pending.call.memptr_isSome_iff
  cases result : pending.call.memptr with
  | none =>
      rw [result] at isMemalign
      have plain : pending.call.fn ≠ .posixMemalign := fun same => by simp [same] at isMemalign
      simpa [Event.exitAddress, plain] using exits
  | some memptr =>
      rw [result] at isMemalign
      have memalign : pending.call.fn = .posixMemalign := isMemalign.mp rfl
      simp only [Event.exitAddress, memalign, if_true] at exits
      obtain ⟨recorded, found, read⟩ := Option.bind_eq_some_iff.mp exits
      rw [holds.memptr memptr recorded result found] at read
      exact read

/-- An exit that overwrites the record of the returned block inserts something. -/
theorem Holds.inserts_of_overwrites
    {maps : Maps}
    {pending : PendingCall}
    {ctx : Context}
    {address : U64}
    (holds : Holds (maps.tables.threads ctx.tid) pending)
    (overwrites : Overwrites maps ctx pending)
    (returned : pending.call.ReturnsBlock ctx address)
    (present : maps.allocs.lookup address ≠ none) :
    insertion maps ⟨ctx, .exit pending.call.fn⟩ ≠ none := by
  obtain ⟨_, occupied, onRecord, accepted⟩ := overwrites
  obtain ⟨sinfo, slot⟩ := Option.ne_none_iff_exists'.mp occupied
  have remembers : RemembersResult (maps.tables.threads ctx.tid) pending.call := by
    intro memptr result
    obtain ⟨recorded, found⟩ :=
      Option.ne_none_iff_exists'.mp (onRecord (by rw [result]; simp))
    have here : (maps.tables.threads ctx.tid).memptr = some recorded := found
    rw [here, holds.memptr memptr recorded result here]
  have exits : Event.exitAddress ⟨ctx, .exit pending.call.fn⟩ (maps.tables.threads ctx.tid) =
      some address :=
    exitAddress_of_returns returned.1 remembers
  unfold insertion
  simp only [Event.tid, exits, slot, accepted]
  rw [if_pos ⟨returned.2.1, bpfMapUpdateElem_isSome_of_present present _⟩]
  simp

/-! ## The invariant -/

/-- The records are right, and so will be those of uninterrupted calls. -/
structure Sound (target : Target) : Prop where
  faithful : target.Faithful
  inProgress : ∀ tid pending, target.pending tid = some pending →
    pending.reportsExit = true → pending.interrupted = false →
      Holds (target.maps.tables.threads tid) pending

variable {rodata : Rodata} {target : Target}

theorem Sound.start : start.Sound where
  faithful := by
    intro address info found
    rw [Target.start, Maps.empty, BoundedMap.lookup_empty] at found
    cases found
  inProgress := by
    intro tid pending inside
    cases inside

/-- An entry and a release add no record. -/
theorem allocs_step_of_no_exitAddress
    {maps : Maps}
    {event : Event}
    {address : U64}
    {info : AllocInfo}
    (exits : event.exitAddress (maps.tables.threads event.tid) = none)
    (found : (step rodata maps event).allocs.lookup address = some info) :
    maps.allocs.lookup address = some info := by
  refine (allocs_step found).resolve_left fun inserts => ?_
  obtain ⟨_, returned, _⟩ := of_insertion inserts
  rw [exits] at returned
  cases returned

theorem Sound.beginCall
    (sound : target.Sound)
    (ctx : Context)
    (call : Call) :
    (target.beginCall rodata ctx call).Sound := by
  constructor
  · intro address info found
    have before : target.maps.allocs.lookup address = some info := by
      simp only [Target.beginCall] at found
      split at found
      · exact allocs_step_of_no_exitAddress rfl found
      · exact found
    exact sound.faithful address info before
  · intro tid pending inside reports uninterrupted
    by_cases mine : tid = ctx.tid
    · subst mine
      simp only [Target.beginCall, Function.update_self] at inside
      obtain rfl := Option.some.inj inside
      have attached : target.Attached (.exit call.fn) := of_decide_eq_true reports
      simp only [Target.beginCall, if_pos (attached_enter_of_exit attached)]
      exact holds_of_enter (of_decide_eq_false uninterrupted) _ _
    · simp only [Target.beginCall, Function.update_of_ne mine] at inside
      have kept : (target.beginCall rodata ctx call).maps.tables.threads tid =
          target.maps.tables.threads tid := by
        simp only [Target.beginCall]
        split
        · exact threads_step_of_ne rodata target.maps mine
        · rfl
      rw [kept]
      exact sound.inProgress tid pending inside reports uninterrupted

section Finish

variable {ctx : Context} {pending : PendingCall}

/-- What the exit of a clean return inserts is the block that its call returns,
with the call's own data. -/
theorem Sound.inserts_own
    (sound : target.Sound)
    (inside : target.pending ctx.tid = some pending)
    (overflow : pending.call.Overflows → ∀ address, ¬pending.call.ReturnsBlock ctx address)
    (clean : CleanReturn target.maps ctx pending)
    (reports : pending.reportsExit = true)
    {address : U64}
    {info : AllocInfo}
    (inserts : insertion target.maps ⟨ctx, .exit pending.call.fn⟩ = some (address, info)) :
    pending.call.ReturnsBlock ctx address ∧
      info.size.toNat = pending.call.requested ∧ info.stackId = pending.ctx.stackId := by
  obtain ⟨sinfo, exits, slot, recordable, rfl⟩ := of_insertion inserts
  obtain ⟨uninterrupted, succeeded⟩ := clean.recorded address reports
    (Option.ne_none_iff_exists'.mpr ⟨sinfo, slot⟩) exits recordable
  have holds := sound.inProgress ctx.tid pending inside reports uninterrupted
  have returned : pending.call.ReturnsBlock ctx address :=
    ⟨holds.returns_of_exitAddress exits, recordable, succeeded⟩
  have fits : ¬pending.call.Overflows := fun tooLarge => overflow tooLarge address returned
  obtain ⟨size, stackId⟩ := holds.slot sinfo slot
  refine ⟨returned, ?_, stackId⟩
  rw [← Call.size_toNat_of_not_overflows fits, ← size]
  rfl

/-- A clean return whose exit inserts nothing returns no block that has a
record. -/
theorem Sound.not_returned_of_no_insertion
    (sound : target.Sound)
    (inside : target.pending ctx.tid = some pending)
    (clean : CleanReturn target.maps ctx pending)
    (nothing : pending.reportsExit = true →
      insertion target.maps ⟨ctx, .exit pending.call.fn⟩ = none)
    {address : U64}
    (present : target.maps.allocs.lookup address ≠ none) :
    ¬pending.call.ReturnsBlock ctx address := by
  intro returned
  obtain ⟨uninterrupted, overwrites⟩ := clean.stale address returned present
  have holds := sound.inProgress ctx.tid pending inside overwrites.1 uninterrupted
  exact holds.inserts_of_overwrites overwrites returned present (nothing overwrites.1)

theorem Sound.finishCall
    (sound : target.Sound)
    (inside : target.pending ctx.tid = some pending)
    (overflow : pending.call.Overflows → ∀ address, ¬pending.call.ReturnsBlock ctx address)
    (clean : CleanReturn target.maps ctx pending) :
    (target.finishCall rodata ctx pending).Sound := by
  constructor
  · intro address info found
    by_cases reports : pending.reportsExit = true
    · simp only [Target.finishCall, if_pos reports] at found
      rw [step_exit_allocs_inserted] at found
      cases inserts : insertion target.maps ⟨ctx, .exit pending.call.fn⟩ with
      | some entry =>
          obtain ⟨place, record⟩ := entry
          obtain ⟨returned, size, stackId⟩ :=
            sound.inserts_own inside overflow clean reports inserts
          rw [inserts, inserted] at found
          by_cases here : address = place
          · subst here
            rw [Function.update_self] at found
            obtain rfl := Option.some.inj found
            exact ⟨pending, by simp only [Target.finishCall, if_pos returned], size, stackId⟩
          · rw [Function.update_of_ne here] at found
            have elsewhere : ¬pending.call.ReturnsBlock ctx address := by
              intro alsoReturned
              exact here (Option.some.inj (alsoReturned.1.symm.trans returned.1))
            simp only [Target.finishCall, if_neg elsewhere]
            exact sound.faithful address info found
      | none =>
          rw [inserts, inserted] at found
          have elsewhere := sound.not_returned_of_no_insertion inside clean (fun _ => inserts)
            (Option.ne_none_iff_exists'.mpr ⟨info, found⟩)
          simp only [Target.finishCall, if_neg elsewhere]
          exact sound.faithful address info found
    · simp only [Target.finishCall, if_neg reports] at found
      have elsewhere := sound.not_returned_of_no_insertion inside clean
        (fun reported => absurd reported reports) (Option.ne_none_iff_exists'.mpr ⟨info, found⟩)
      simp only [Target.finishCall, if_neg elsewhere]
      exact sound.faithful address info found
  · intro tid other stillInside reports uninterrupted
    have different : tid ≠ ctx.tid := by
      rintro rfl
      simp only [Target.finishCall, Function.update_self] at stillInside
      cases stillInside
    simp only [Target.finishCall, Function.update_of_ne different] at stillInside
    have kept : (target.finishCall rodata ctx pending).maps.tables.threads tid =
        target.maps.tables.threads tid := by
      simp only [Target.finishCall]
      split
      · exact threads_step_of_ne rodata target.maps different
      · rfl
    rw [kept]
    exact sound.inProgress tid other stillInside reports uninterrupted

end Finish

theorem Sound.release
    (sound : target.Sound)
    (ctx : Context)
    (call : Release) :
    (target.release rodata ctx call).Sound := by
  constructor
  · intro address info found
    have before : target.maps.allocs.lookup address = some info := by
      simp only [Target.release] at found
      split at found
      · exact allocs_step_of_no_exitAddress rfl found
      · exact found
    exact sound.faithful address info before
  · intro tid pending inside reports uninterrupted
    have kept : (target.release rodata ctx call).maps.tables.threads tid =
        target.maps.tables.threads tid := by
      simp only [Target.release]
      split
      · obtain ⟨outcome, content, _⟩ :=
          step_refines rodata target.maps ⟨ctx, .release call⟩
        rw [content, Tables.step_threads]
        exact congrFun (Function.update_eq_self _ _) tid
      · rfl
    rw [kept]
    exact sound.inProgress tid pending inside reports uninterrupted

/-- A step in which only clean calls return keeps the records right. -/
theorem Sound.step
    {action : Action}
    {next : Target}
    (allowed : CleanStep rodata target action next)
    (sound : target.Sound) :
    next.Sound := by
  obtain ⟨steps, clean⟩ := allowed
  cases steps with
  | attach below => exact ⟨sound.faithful, sound.inProgress⟩
  | beginCall ctx call idle => exact sound.beginCall ctx call
  | finishCall ctx pending inside overflow =>
      exact sound.finishCall inside overflow (clean ctx pending rfl inside)
  | release ctx call => exact sound.release ctx call

end Target

/-- In every run of the loader and the target in which the calls return
cleanly, every record has the size and the stack of the call that returned its
address. -/
theorem attach_faithful
    (rodata : Rodata)
    (actions : List Action)
    (target : Target)
    (trace : Trace (Target.CleanStep rodata) Target.start actions target) :
    target.Faithful :=
  (trace.invariant Target.Sound (fun allowed sound => sound.step allowed)
    Target.Sound.start).faithful

/-- A call on a target whose entry and exit of `malloc` are attached. -/
def lateCall : List Action :=
  [ .attach, .attach,
    .beginCall (.quiet 1 0) (.malloc 7), .finishCall (.quiet 1 8192) ]

theorem attach_faithful_lateCall :
    ∃ target, Trace (Target.CleanStep (.main 4096)) Target.start lateCall target ∧
      target.Faithful ∧ 8192 ∈ target.maps.allocs.keys := by
  have steps : Trace (Target.CleanStep (.main 4096)) Target.start lateCall _ :=
    .cons ⟨.attach _ (by decide), by rintro _ _ ⟨⟩⟩
      (.cons ⟨.attach _ (by decide), by rintro _ _ ⟨⟩⟩
        (.cons ⟨.beginCall _ _ _ rfl, by rintro _ _ ⟨⟩⟩
          (.cons ⟨.finishCall _ _ _ rfl fun overflow => absurd overflow (by decide), by
            rintro ctx pending ⟨⟩ inside
            obtain rfl := Option.some.inj inside
            exact ⟨fun _ _ _ _ _ => ⟨by decide, fun memalign => absurd rfl memalign⟩,
              fun address _ present => absurd rfl present⟩⟩
            (.nil _))))
  exact ⟨_, steps, attach_faithful _ _ _ steps, by decide⟩

/-- A call begins after the entry of `malloc` is attached and before its exit
is, and the thread calls `malloc` again when both are. -/
def lateExit : List Action :=
  [ .attach,
    .beginCall (.quiet 1 0) (.malloc 100),
    .attach,
    .finishCall (.quiet 1 4096),
    .beginCall (.quiet 1 0) (.malloc 7),
    .finishCall (.quiet 1 8192) ]

/-- The second block is recorded with the size of the first. -/
theorem lateExit_not_faithful :
    ¬∀ (rodata : Rodata) (actions : List Action) (target : Target),
      Trace (Target.Step rodata) Target.start actions target → target.Faithful := by
  intro general
  have trace : Trace (Target.Step (.main 4096)) Target.start lateExit _ :=
    .cons (.attach _ (by decide))
      (.cons (.beginCall _ _ _ rfl)
        (.cons (.attach _ (by decide))
          (.cons (.finishCall _ _ _ rfl fun overflow => absurd overflow (by decide))
            (.cons (.beginCall _ _ _ rfl)
              (.cons (.finishCall _ _ _ rfl fun overflow => absurd overflow (by decide))
                (.nil _))))))
  have faithful := general _ _ _ trace 8192 _ rfl
  obtain ⟨pending, returned, size, _⟩ := faithful
  obtain rfl := Option.some.inj returned
  exact absurd size (by decide)

end Memleak
end EbpfHub
