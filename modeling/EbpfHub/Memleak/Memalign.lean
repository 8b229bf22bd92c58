import EbpfHub.Memleak.Statistics

/-!
# The outcomes of `posix_memalign`

The entry of `posix_memalign` leaves an entry in `sizes` and one in `memptrs`.
Its exit removes the first only when it finds the second and can read the word
that it points to, and takes that word for the block that the call returned.
-/

namespace EbpfHub
namespace Memleak

open Foundations

/-! ## What hits of other threads leave alone -/

/-- A hit leaves the entries of other threads alone. -/
theorem hitStep_threads_of_ne
    (rodata : Rodata)
    (hit : Hit)
    {tid : U32}
    (different : hit.ctx.tid ≠ tid)
    (maps : Maps) :
    (hitStep rodata maps hit).tables.threads tid = maps.tables.threads tid := by
  apply hitStep_preserves rodata hit fun after =>
    after.tables.threads tid = maps.tables.threads tid
  · intro address before same
    obtain ⟨content, -⟩ := tables_genFreeEnter rodata .success address before
    rw [content, Tables.apply_threads, same]
  · intro size before same
    obtain ⟨_, content, -⟩ := tables_genAllocEnter rodata hit.ctx size before
    rw [content, Tables.setThread_threads, Function.update_of_ne (Ne.symm different), same]
  · intro address before same
    obtain ⟨_, _, content, -⟩ := tables_genAllocExit2 rodata hit.ctx address before
    rw [content, Tables.setThread_threads, Function.update_of_ne (Ne.symm different),
      Tables.apply_threads, same]
  · intro memptr before same
    obtain ⟨_, content, -⟩ := Maps.tables_updateMemptrs hit.ctx memptr before
    rw [content, Tables.setThread_threads, Function.update_of_ne (Ne.symm different), same]
  · intro before same
    have erased : Maps.tables { before with memptrs := before.memptrs.erase hit.ctx.tid } =
        before.tables.setThread hit.ctx.tid
          { before.tables.threads hit.ctx.tid with memptr := none } := by
      ext other : 2
      · by_cases mine : other = hit.ctx.tid
        · subst mine
          simp [Maps.tables]
        · simp [Maps.tables, mine]
      · rfl
      · rfl
    rw [erased, Tables.setThread_threads, Function.update_of_ne (Ne.symm different), same]
  · rfl

theorem run_threads_of_ne
    (rodata : Rodata)
    {hits : List Hit}
    {tid : U32}
    (others : ∀ hit ∈ hits, hit.ctx.tid ≠ tid)
    (maps : Maps) :
    (run (hitStep rodata) maps hits).tables.threads tid = maps.tables.threads tid := by
  induction hits generalizing maps with
  | nil => rfl
  | cons hit hits inductionHypothesis =>
      obtain ⟨first, rest⟩ := List.forall_mem_cons.mp others
      rw [run_cons, inductionHypothesis rest, hitStep_threads_of_ne rodata hit first]

/-! ## Entry and exit -/

/-- The slot after `gen_alloc_enter`. -/
theorem genAllocEnter_slot
    (rodata : Rodata)
    (ctx : Context)
    (size : U64)
    (maps : Maps) :
    (genAllocEnter rodata ctx size maps).sizes.lookup ctx.tid =
      (maps.sizes.lookup ctx.tid).or
        (if rodata.Accepts size ctx.ktime ∧ ctx.faults.sizes = false ∧
            maps.sizes.HasRoom ctx.tid then
          some (captureSizeInfo size ctx.stackId ctx.sp ctx.readUser)
        else none) := by
  unfold genAllocEnter
  by_cases filtered : size < rodata.minSize ∨ size > rodata.maxSize
  · simp [filtered, Rodata.Accepts]
  · rw [if_neg filtered]
    by_cases sampled : rodata.sampleRate > 1 ∧ ctx.ktime % rodata.sampleRate ≠ 0
    · have rejected : ¬(rodata.Accepts size ctx.ktime ∧ ctx.faults.sizes = false ∧
          maps.sizes.HasRoom ctx.tid) := fun all => all.1.2 sampled
      rw [if_pos sampled, if_neg rejected, Option.or_none]
    · have accepts : rodata.Accepts size ctx.ktime := ⟨filtered, sampled⟩
      rw [if_neg sampled]
      cases slot : maps.sizes.lookup ctx.tid with
      | some sinfo => rw [Option.some_or, slot]
      | none =>
          have attempt := bpfMapUpdateElem_isSome_iff ctx.faults.sizes maps.sizes ctx.tid
            (captureSizeInfo size ctx.stackId ctx.sp ctx.readUser)
          rw [Option.none_or]
          dsimp only [Maps.updateSizes]
          cases updated : bpfMapUpdateElem ctx.faults.sizes maps.sizes ctx.tid
              (captureSizeInfo size ctx.stackId ctx.sp ctx.readUser) with
          | none =>
              rw [updated] at attempt
              have fails : ¬(ctx.faults.sizes = false ∧ maps.sizes.HasRoom ctx.tid) :=
                fun room => absurd (attempt.mpr room) (by simp)
              rw [if_neg fun all => fails all.2]
              exact slot
          | some sizes =>
              rw [updated] at attempt
              rw [if_pos ⟨accepts, attempt.mp rfl⟩]
              dsimp only
              rw [lookup_of_bpfMapUpdateElem updated, Function.update_self]

/-- The result pointer on record after its update. -/
theorem updateMemptrs_pointer
    (ctx : Context)
    (memptr : U64)
    (maps : Maps) :
    (maps.updateMemptrs ctx memptr).memptrs.lookup ctx.tid =
      if ctx.faults.memptrs = false ∧ maps.memptrs.HasRoom ctx.tid then some memptr
      else maps.memptrs.lookup ctx.tid := by
  have attempt := bpfMapUpdateElem_isSome_iff ctx.faults.memptrs maps.memptrs ctx.tid memptr
  unfold Maps.updateMemptrs
  cases updated : bpfMapUpdateElem ctx.faults.memptrs maps.memptrs ctx.tid memptr with
  | none =>
      rw [updated] at attempt
      rw [if_neg fun room => absurd (attempt.mpr room) (by simp)]
  | some memptrs =>
      rw [updated] at attempt
      rw [if_pos (attempt.mp rfl)]
      dsimp only
      rw [lookup_of_bpfMapUpdateElem updated, Function.update_self]

theorem updateMemptrs_sizes
    (ctx : Context)
    (memptr : U64)
    (maps : Maps) :
    (maps.updateMemptrs ctx memptr).sizes = maps.sizes := by
  unfold Maps.updateMemptrs
  split <;> rfl

theorem updateMemptrs_allocs
    (ctx : Context)
    (memptr : U64)
    (maps : Maps) :
    (maps.updateMemptrs ctx memptr).allocs = maps.allocs := by
  unfold Maps.updateMemptrs
  split <;> rfl

theorem genAllocEnter_allocs
    (rodata : Rodata)
    (ctx : Context)
    (size : U64)
    (maps : Maps) :
    (genAllocEnter rodata ctx size maps).allocs = maps.allocs := by
  unfold genAllocEnter Maps.updateSizes
  split
  · rfl
  · split
    · rfl
    · split
      · rfl
      · split <;> rfl

/-- `gen_alloc_exit2` leaves the slot of its thread empty and its result pointer
alone. -/
theorem genAllocExit2_thread
    (rodata : Rodata)
    (ctx : Context)
    (address : U64)
    (maps : Maps) :
    (genAllocExit2 rodata ctx address maps).sizes.lookup ctx.tid = none ∧
      (genAllocExit2 rodata ctx address maps).memptrs.lookup ctx.tid =
        maps.memptrs.lookup ctx.tid := by
  obtain ⟨_, _, content, -⟩ := tables_genAllocExit2 rodata ctx address maps
  have thread : (genAllocExit2 rodata ctx address maps).tables.threads ctx.tid =
      { maps.tables.threads ctx.tid with slot := none } := by
    rw [content, Tables.setThread_threads, Function.update_self]
  exact ⟨congrArg ThreadState.slot thread, congrArg ThreadState.memptr thread⟩

/-- A map with one value stored is the map from before, or that map with some
good value stored under some good key, exactly when the value was there or the
value and the key are good. -/
theorem update_eq_self_or_iff
    (values : U64 → Option AllocInfo)
    (key : U64)
    (value : AllocInfo)
    (goodKey : U64 → Prop)
    (goodValue : AllocInfo → Prop) :
    (Function.update values key (some value) = values ∨
      ∃ other new, goodKey other ∧ goodValue new ∧
        Function.update values key (some value) = Function.update values other (some new)) ↔
      values key = some value ∨ goodKey key ∧ goodValue value := by
  constructor
  · rintro (same | ⟨other, new, keyIsGood, valueIsGood, same⟩)
    · exact .inl (Function.update_eq_self_iff.mp same).symm
    · have here := congrFun same key
      rw [Function.update_self] at here
      by_cases own : key = other
      · subst own
        rw [Function.update_self] at here
        obtain rfl := Option.some.inj here
        exact .inr ⟨keyIsGood, valueIsGood⟩
      · rw [Function.update_of_ne own] at here
        exact .inl here.symm
  · rintro (present | ⟨keyIsGood, valueIsGood⟩)
    · exact .inl (Function.update_eq_self_iff.mpr present.symm)
    · exact .inr ⟨key, value, keyIsGood, valueIsGood, rfl⟩

/-! ## A call of `posix_memalign` -/

/-- A call of `posix_memalign` that is not nested: the hits before it, its
entry, the hits of other threads until it returns, and its exit. -/
structure MemalignCall where
  before : List Hit
  ctx : Context
  memptr : U64
  alignment : U64
  size : U64
  during : List Hit
  exitCtx : Context
  sameThread : exitCtx.tid = ctx.tid
  otherThreads : ∀ hit ∈ during, hit.ctx.tid ≠ ctx.tid

namespace MemalignCall

variable (rodata : Rodata) (memalign : MemalignCall)

/-- The call. -/
def call : Call := .posixMemalign memalign.memptr memalign.alignment memalign.size

/-- The maps before the entry. -/
def atEnter : Maps := runHits rodata memalign.before

/-- The maps after the entry. -/
def entered : Maps :=
  hitStep rodata (memalign.atEnter rodata) (.uprobe ⟨memalign.ctx, .enter memalign.call⟩)

/-- The maps before the exit. -/
def atExit : Maps := run (hitStep rodata) (memalign.entered rodata) memalign.during

/-- The maps after the exit. -/
def exited : Maps :=
  hitStep rodata (memalign.atExit rodata)
    (.uprobe ⟨memalign.exitCtx, .exit .posixMemalign⟩)

/-- The call leaves no entry of its thread, and changes `allocs` only by the
record of the block that it returned, with the requested size. -/
structure TracksCleanly : Prop where
  sizes : (memalign.exited rodata).sizes.lookup memalign.ctx.tid = none
  memptrs : (memalign.exited rodata).memptrs.lookup memalign.ctx.tid = none
  enter : (memalign.entered rodata).allocs.lookup = (memalign.atEnter rodata).allocs.lookup
  exit : (memalign.exited rodata).allocs.lookup = (memalign.atExit rodata).allocs.lookup ∨
    ∃ block info, memalign.call.ReturnsBlock memalign.exitCtx block ∧
      info.size = memalign.size ∧
      (memalign.exited rodata).allocs.lookup =
        Function.update (memalign.atExit rodata).allocs.lookup block (some info)

/-- The slot that the exit finds: the one that was there before the call, or
what the entry stored. -/
def slot : Option SizeInfo :=
  ((memalign.atEnter rodata).sizes.lookup memalign.ctx.tid).or
    (if rodata.Accepts memalign.size memalign.ctx.ktime ∧
        memalign.ctx.faults.sizes = false ∧
        (memalign.atEnter rodata).sizes.HasRoom memalign.ctx.tid then
      some (captureSizeInfo memalign.size memalign.ctx.stackId memalign.ctx.sp
        memalign.ctx.readUser)
    else none)

/-- The result pointer that the exit finds: that of the call, or the one that
was there before when the update failed. -/
def pointer : Option U64 :=
  if memalign.ctx.faults.memptrs = false ∧
      (memalign.atEnter rodata).memptrs.HasRoom memalign.ctx.tid then
    some memalign.memptr
  else (memalign.atEnter rodata).memptrs.lookup memalign.ctx.tid

/-- The slot is empty, or the exit reads an address that it does not store, or
that has the very record already, or that is the block which the call returned
for a slot of the requested size. -/
def Clean : Prop :=
  ∀ sinfo, memalign.slot rodata = some sinfo →
    ∃ address, (memalign.pointer rodata).bind memalign.exitCtx.readUser = some address ∧
      (¬(Recordable address ∧ (memalign.atExit rodata).Stores memalign.exitCtx address) ∨
        (memalign.atExit rodata).allocs.lookup address =
          some (allocInfoOf sinfo memalign.exitCtx.ktime) ∨
        memalign.call.ReturnsBlock memalign.exitCtx address ∧ sinfo.size = memalign.size)

variable {rodata} {memalign}

/-- The entry of the call. -/
theorem entered_eq :
    memalign.entered rodata =
      genAllocEnter rodata memalign.ctx memalign.size
        ((memalign.atEnter rodata).updateMemptrs memalign.ctx memalign.memptr) := rfl

theorem atExit_slot :
    (memalign.atExit rodata).sizes.lookup memalign.exitCtx.tid = memalign.slot rodata := by
  have same := run_threads_of_ne rodata memalign.otherThreads (memalign.entered rodata)
  have kept : (memalign.atExit rodata).sizes.lookup memalign.ctx.tid =
      (memalign.entered rodata).sizes.lookup memalign.ctx.tid := congrArg ThreadState.slot same
  rw [memalign.sameThread, kept, entered_eq, genAllocEnter_slot, updateMemptrs_sizes]
  rfl

theorem atExit_pointer :
    (memalign.atExit rodata).memptrs.lookup memalign.exitCtx.tid = memalign.pointer rodata := by
  have same := run_threads_of_ne rodata memalign.otherThreads (memalign.entered rodata)
  have kept : (memalign.atExit rodata).memptrs.lookup memalign.ctx.tid =
      (memalign.entered rodata).memptrs.lookup memalign.ctx.tid :=
    congrArg ThreadState.memptr same
  rw [memalign.sameThread, kept, entered_eq, genAllocEnter_memptrs, updateMemptrs_pointer]
  rfl

theorem entered_allocs :
    (memalign.entered rodata).allocs.lookup = (memalign.atEnter rodata).allocs.lookup := by
  rw [entered_eq, genAllocEnter_allocs, updateMemptrs_allocs]

/-- An exit that does not come to read a word leaves the slot and the
allocations. -/
theorem exited_of_unread
    (unread : (memalign.pointer rodata).bind memalign.exitCtx.readUser = none) :
    (memalign.exited rodata).sizes.lookup memalign.ctx.tid = memalign.slot rodata ∧
      (memalign.exited rodata).memptrs.lookup memalign.ctx.tid = none ∧
      (memalign.exited rodata).allocs.lookup = (memalign.atExit rodata).allocs.lookup := by
  rw [← atExit_pointer] at unread
  rw [← atExit_slot, ← memalign.sameThread]
  simp only [exited, hitStep, step, AllocFn.exit, posixMemalignExit]
  cases recorded : (memalign.atExit rodata).memptrs.lookup memalign.exitCtx.tid with
  | none => exact ⟨rfl, recorded, rfl⟩
  | some memptr64 =>
      rw [recorded, Option.bind_some] at unread
      simp only [unread, BoundedMap.lookup_erase, Function.update_self, and_self]

/-- An exit that reads a word records it for the slot. -/
theorem exited_of_read
    {address : U64}
    (read : (memalign.pointer rodata).bind memalign.exitCtx.readUser = some address) :
    (memalign.exited rodata).sizes.lookup memalign.ctx.tid = none ∧
      (memalign.exited rodata).memptrs.lookup memalign.ctx.tid = none ∧
      (memalign.exited rodata).allocs.lookup =
        match memalign.slot rodata with
        | none => (memalign.atExit rodata).allocs.lookup
        | some sinfo =>
            if Recordable address ∧
                (memalign.atExit rodata).Stores memalign.exitCtx address then
              Function.update (memalign.atExit rodata).allocs.lookup address
                (some (allocInfoOf sinfo memalign.exitCtx.ktime))
            else (memalign.atExit rodata).allocs.lookup := by
  rw [← atExit_pointer] at read
  rw [← atExit_slot, ← memalign.sameThread]
  obtain ⟨memptr64, recorded, word⟩ := Option.bind_eq_some_iff.mp read
  simp only [exited, hitStep, step, AllocFn.exit, posixMemalignExit, recorded, word]
  obtain ⟨slot, pointer⟩ := genAllocExit2_thread rodata memalign.exitCtx address
    { memalign.atExit rodata with
      memptrs := (memalign.atExit rodata).memptrs.erase memalign.exitCtx.tid }
  refine ⟨slot, ?_, ?_⟩
  · rw [pointer, BoundedMap.lookup_erase, Function.update_self]
  · rw [genAllocExit2_allocs]
    simp only [bpfMapUpdateElem_isSome_iff]
    rfl

/-- What is left to show once the exit has left no entry of the thread. -/
theorem tracksCleanly_iff_exit
    (sizes : (memalign.exited rodata).sizes.lookup memalign.ctx.tid = none)
    (memptrs : (memalign.exited rodata).memptrs.lookup memalign.ctx.tid = none) :
    memalign.TracksCleanly rodata ↔
      (memalign.exited rodata).allocs.lookup = (memalign.atExit rodata).allocs.lookup ∨
        ∃ block info, memalign.call.ReturnsBlock memalign.exitCtx block ∧
          info.size = memalign.size ∧
          (memalign.exited rodata).allocs.lookup =
            Function.update (memalign.atExit rodata).allocs.lookup block (some info) :=
  ⟨TracksCleanly.exit, fun exit => ⟨sizes, memptrs, entered_allocs, exit⟩⟩

/-- The condition for a slot and a word that the exit reads. -/
theorem clean_iff_of_read
    {address : U64}
    {sinfo : SizeInfo}
    (read : (memalign.pointer rodata).bind memalign.exitCtx.readUser = some address)
    (slot : memalign.slot rodata = some sinfo) :
    memalign.Clean rodata ↔
      ¬(Recordable address ∧ (memalign.atExit rodata).Stores memalign.exitCtx address) ∨
        (memalign.atExit rodata).allocs.lookup address =
          some (allocInfoOf sinfo memalign.exitCtx.ktime) ∨
        memalign.call.ReturnsBlock memalign.exitCtx address ∧ sinfo.size = memalign.size := by
  unfold Clean
  rw [slot, read]
  constructor
  · intro clean
    obtain ⟨_, ⟨⟩, outcome⟩ := clean sinfo rfl
    exact outcome
  · rintro outcome _ ⟨⟩
    exact ⟨address, rfl, outcome⟩

/-- `posix_memalign` is tracked cleanly exactly when its exit finds no slot, or
reads an address that it does not store, or stores already, or that the call
returned for a slot of the requested size. -/
theorem tracksCleanly_iff
    (rodata : Rodata)
    (memalign : MemalignCall) :
    memalign.TracksCleanly rodata ↔ memalign.Clean rodata := by
  cases read : (memalign.pointer rodata).bind memalign.exitCtx.readUser with
  | none =>
      obtain ⟨sizes, memptrs, allocs⟩ := exited_of_unread read
      constructor
      · rintro ⟨empty, -, -, -⟩ sinfo filled
        rw [sizes, filled] at empty
        cases empty
      · intro clean
        refine ⟨?_, memptrs, entered_allocs, .inl allocs⟩
        rw [sizes]
        by_contra filled
        obtain ⟨sinfo, slot⟩ := Option.ne_none_iff_exists'.mp filled
        obtain ⟨address, reads, -⟩ := clean sinfo slot
        rw [read] at reads
        cases reads
  | some address =>
      obtain ⟨sizes, memptrs, allocs⟩ := exited_of_read read
      cases slot : memalign.slot rodata with
      | none =>
          rw [slot] at allocs
          refine iff_of_true ⟨sizes, memptrs, entered_allocs, .inl allocs⟩ ?_
          intro sinfo filled
          rw [slot] at filled
          cases filled
      | some sinfo =>
          rw [slot] at allocs
          dsimp only at allocs
          rw [tracksCleanly_iff_exit sizes memptrs, clean_iff_of_read read slot, allocs]
          by_cases stored : Recordable address ∧
              (memalign.atExit rodata).Stores memalign.exitCtx address
          · rw [if_pos stored, or_iff_right (not_not_intro stored)]
            exact update_eq_self_or_iff _ address _ _ _
          · rw [if_neg stored]
            exact iff_of_true (.inl rfl) (.inl stored)

/-- A call that fails and leaves the old pointer in place. -/
def failedMemalign : MemalignCall where
  before := []
  ctx := .quiet 1 0
  memptr := 4096
  alignment := 16
  size := 32
  during := []
  -- `ENOMEM`
  exitCtx := { Context.quiet 1 12 with readUser := fun _ => some 8192 }
  sameThread := by decide
  otherThreads := by simp

/-- The failed call leaves a record of the old pointer. -/
theorem failedMemalign_not_tracksCleanly :
    ¬failedMemalign.TracksCleanly (Rodata.main 4096) := by
  rintro ⟨-, -, -, exit⟩
  rcases exit with same | ⟨block, info, ⟨-, -, success⟩, -, -⟩
  · have recorded := congrArg Option.isSome (congrFun same 8192)
    exact absurd recorded (by decide)
  · exact absurd (success (by decide)) (by decide)

end MemalignCall

end Memleak
end EbpfHub
