import EbpfHub.Memleak.Refinement
import EbpfHub.Memleak.Tracepoints

/-!
# What an allocating tracepoint records

An allocating tracepoint fills the slot of its thread and empties it again.  It
records its own event when it finds the slot empty, and takes over the slot of a
user-space call otherwise.
-/

namespace EbpfHub
namespace Memleak

open Foundations

/-- The programs of a hit find the maps and leave them with the record of an
allocation, and nothing else has changed. -/
structure RecordsOwnEvent (before after : Maps) (address size : U64) : Prop where
  recorded : ∃ info, after.allocs.lookup address = some info ∧ info.size = size
  others : ∀ key, key ≠ address → after.allocs.lookup key = before.allocs.lookup key
  sizes : after.sizes = before.sizes

/-! ## The release before the record -/

theorem releaseBlock_threads
    (rodata : Rodata)
    (released : Option U64)
    (maps : Maps) :
    (releaseBlock rodata released maps).tables.threads = maps.tables.threads := by
  cases released with
  | none => rfl
  | some ptr =>
      obtain ⟨content, -⟩ := tables_genFreeEnter rodata .success ptr maps
      rw [releaseBlock, content, Tables.apply_threads]

theorem releaseBlock_failedUpdates
    (rodata : Rodata)
    (released : Option U64)
    (maps : Maps) :
    (releaseBlock rodata released maps).failedUpdates = maps.failedUpdates := by
  cases released with
  | none => rfl
  | some ptr => exact (tables_genFreeEnter rodata .success ptr maps).2

theorem releaseBlock_allocs
    (rodata : Rodata)
    (released : Option U64)
    (maps : Maps) :
    (releaseBlock rodata released maps).tables.allocs = forget released maps.tables.allocs := by
  cases released with
  | none => rfl
  | some ptr =>
      obtain ⟨content, -⟩ := tables_genFreeEnter rodata .success ptr maps
      rw [releaseBlock, content, Tables.apply_release_allocs]
      rfl

/-- The block that an allocating tracepoint takes to be released is the one
that it records. -/
theorem Tracepoint.released_of_request
    {rodata : Rodata}
    {tracepoint : Tracepoint}
    {size address other : U64}
    (request : tracepoint.request rodata = some (size, address))
    (different : other ≠ address) :
    tracepoint.released rodata ≠ some other := by
  cases tracepoint with
  | kmalloc ptr bytesAlloc =>
      simp only [Tracepoint.request, Option.some.injEq, Prod.mk.injEq] at request
      simp only [released]
      split
      · simpa [request.2] using different.symm
      · simp
  | kmemCacheAlloc ptr bytesAlloc =>
      simp only [Tracepoint.request, Option.some.injEq, Prod.mk.injEq] at request
      simp only [released]
      split
      · simpa [request.2] using different.symm
      · simp
  | mmPageAlloc pfn order => simp [released]
  | percpuAllocPercpu ptr bytesAlloc => simp [released]
  | _ => simp [Tracepoint.request] at request

/-! ## Entry and exit back to back -/

/-- An entry and an exit back to back record what the slot of the thread holds,
or what the entry captures when it is empty, and leave the slot empty. -/
theorem enter_exit
    {rodata : Rodata}
    {ctx : Context}
    {size address : U64}
    {maps : Maps}
    (accepts : rodata.Accepts size ctx.ktime)
    (recordable : Recordable address)
    (noFailure :
      (genAllocExit2 rodata ctx address (genAllocEnter rodata ctx size maps)).failedUpdates =
        maps.failedUpdates) :
    ∃ sinfo, (maps.tables.threads ctx.tid).slot.or
        (some (captureSizeInfo size ctx.stackId ctx.sp ctx.readUser)) = some sinfo ∧
      (genAllocExit2 rodata ctx address (genAllocEnter rodata ctx size maps)).tables.allocs =
        Function.update maps.tables.allocs address (some (allocInfoOf sinfo ctx.ktime)) ∧
      (genAllocExit2 rodata ctx address (genAllocEnter rodata ctx size maps)).tables.threads =
        Function.update maps.tables.threads ctx.tid
          { maps.tables.threads ctx.tid with slot := none } := by
  obtain ⟨filled, entered, enterFailed⟩ := tables_genAllocEnter rodata ctx size maps
  obtain ⟨recorded, counted, exited, exitFailed⟩ :=
    tables_genAllocExit2 rodata ctx address (genAllocEnter rodata ctx size maps)
  have none : missed filled = 0 ∧ missed recorded = 0 := by omega
  obtain rfl := (missed_eq_zero_iff filled).mp none.1
  obtain rfl := (missed_eq_zero_iff recorded).mp none.2
  have captured : captureOf rodata ctx size =
      some (captureSizeInfo size ctx.stackId ctx.sp ctx.readUser) := if_pos accepts
  rw [captured, if_pos rfl] at entered
  obtain ⟨sinfo, slot⟩ : ∃ sinfo, (maps.tables.threads ctx.tid).slot.or
      (some (captureSizeInfo size ctx.stackId ctx.sp ctx.readUser)) = some sinfo := by
    cases (maps.tables.threads ctx.tid).slot with
    | none => exact ⟨_, rfl⟩
    | some sinfo => exact ⟨sinfo, rfl⟩
  rw [slot] at entered
  rw [entered] at exited
  refine ⟨sinfo, slot, ?_, ?_⟩
  · rw [exited]
    simp [exitAction, recordable]
  · rw [exited]
    simp

/-- An allocating tracepoint records exactly its own event when, and only when,
no call of its thread has filled the slot. -/
theorem tracepoint_records_own_event_iff
    (rodata : Rodata)
    (hits : List Hit)
    (ctx : Context)
    (tracepoint : Tracepoint)
    (size address : U64)
    (request : tracepoint.request rodata = some (size, address))
    (rate : rodata.sampleRate = 1)
    (lower : rodata.minSize.toNat ≤ size.toNat)
    (upper : size.toNat ≤ rodata.maxSize.toNat)
    (recordable : Recordable address)
    (noFailure :
      (hitStep rodata (runHits rodata hits) (.tracepoint ctx tracepoint)).failedUpdates =
        (runHits rodata hits).failedUpdates) :
    RecordsOwnEvent (runHits rodata hits)
        (hitStep rodata (runHits rodata hits) (.tracepoint ctx tracepoint)) address size ↔
      (runHits rodata hits).sizes.lookup ctx.tid = none := by
  generalize runHits rodata hits = maps at noFailure ⊢
  simp only [hitStep, Tracepoint.program_eq, request] at noFailure ⊢
  have accepts : rodata.Accepts size ctx.ktime := Rodata.accepts_of_bounds rate lower upper
  have failed := releaseBlock_failedUpdates rodata (tracepoint.released rodata) maps
  obtain ⟨sinfo, slot, allocs, threads⟩ :=
    enter_exit accepts recordable (noFailure.trans failed.symm)
  rw [releaseBlock_threads] at slot threads
  rw [releaseBlock_allocs] at allocs
  generalize genAllocExit2 rodata ctx address _ = after at allocs threads ⊢
  have sizes : after.sizes.lookup = Function.update maps.sizes.lookup ctx.tid none := by
    funext tid
    have entry : after.sizes.lookup tid = _ := congrArg ThreadState.slot (congrFun threads tid)
    rw [entry]
    by_cases mine : tid = ctx.tid
    · subst mine
      simp only [Function.update_self]
    · simp only [Function.update_of_ne mine]
      rfl
  constructor
  · rintro ⟨-, -, same⟩
    rw [← same, sizes, Function.update_self]
  · intro empty
    refine ⟨⟨allocInfoOf sinfo ctx.ktime, ?_, ?_⟩, ?_, ?_⟩
    · exact (congrFun allocs address).trans (Function.update_self ..)
    · have slotEmpty : (maps.tables.threads ctx.tid).slot = none := empty
      rw [slotEmpty, Option.none_or] at slot
      obtain rfl := Option.some.inj slot
      exact captureSizeInfo_size ..
    · intro key different
      calc
        after.allocs.lookup key
            = Function.update (forget (tracepoint.released rodata) maps.tables.allocs) address
                (some (allocInfoOf sinfo ctx.ktime)) key := congrFun allocs key
        _ = forget (tracepoint.released rodata) maps.tables.allocs key :=
            Function.update_of_ne different ..
        _ = maps.allocs.lookup key :=
            forget_of_ne (Tracepoint.released_of_request request different) _
    · apply BoundedMap.ext_lookup
      intro tid
      rw [sizes, Function.update_eq_self_iff.mpr empty.symm]

/-- A kernel allocation while another thread is in a call of `malloc`. -/
theorem tracepoint_records_own_event_iff_otherThread :
    RecordsOwnEvent
      (runHits (Rodata.main 4096) [.uprobe ⟨.quiet 2 0, .enter (.malloc 100)⟩])
      (hitStep (Rodata.main 4096)
        (runHits (Rodata.main 4096) [.uprobe ⟨.quiet 2 0, .enter (.malloc 100)⟩])
        (.tracepoint (.quiet 1 0) (.kmalloc 8192 64))) 8192 64 :=
  (tracepoint_records_own_event_iff (Rodata.main 4096)
    [.uprobe ⟨.quiet 2 0, .enter (.malloc 100)⟩] (.quiet 1 0) (.kmalloc 8192 64) 64 8192 rfl rfl
    (by decide) (by decide) (by decide) (by decide)).mpr (by decide)

/-- A thread in a call of `malloc`. -/
def inMalloc : List Hit := [.uprobe ⟨.quiet 1 0, .enter (.malloc 100)⟩]

/-- A kernel allocation while its thread is in a call of `malloc` takes the size
of that call and empties its slot, although no update fails. -/
theorem inMalloc_not_recordsOwnEvent :
    (hitStep (Rodata.main 4096) (runHits (Rodata.main 4096) inMalloc)
        (.tracepoint (.quiet 1 0) (.kmalloc 8192 64))).failedUpdates =
      (runHits (Rodata.main 4096) inMalloc).failedUpdates ∧
    ¬RecordsOwnEvent (runHits (Rodata.main 4096) inMalloc)
      (hitStep (Rodata.main 4096) (runHits (Rodata.main 4096) inMalloc)
        (.tracepoint (.quiet 1 0) (.kmalloc 8192 64))) 8192 64 := by
  refine ⟨by decide, ?_⟩
  rintro ⟨-, -, sizes⟩
  have slot := congrArg (fun map => (map.lookup 1).isSome) sizes
  exact absurd slot (by decide)

end Memleak
end EbpfHub
