import EbpfHub.Memleak.Calls

/-!
# The tracepoint programs

The programs of `memleak.bpf.c` that run on kernel tracepoints, and the machine
on which they run among the uprobe programs.  An allocating tracepoint calls
`gen_alloc_enter` and `gen_alloc_exit2` back to back, over the slot that the
uprobe programs keep for the same thread.
-/

namespace EbpfHub
namespace Memleak

open Foundations

/-- `has_kmem_alloc_node()`. -/
def hasKmemAllocNode : Bool := false

section Programs

variable (rodata : Rodata) (ctx : Context)

/-- The workaround for missing events of releases. -/
def freeMissing (ptr : U64) (maps : Maps) : Maps :=
  if rodata.waMissingFree then genFreeEnter rodata ptr maps else maps

/-- The two layouts of the arguments have the same fields. -/
def memleakKmalloc (ptr bytesAlloc : U64) (maps : Maps) : Maps :=
  genAllocExit2 rodata ctx ptr
    (genAllocEnter rodata ctx bytesAlloc (freeMissing rodata ptr maps))

/-- The tracepoint does not exist. -/
def memleakKmallocNode (ptr bytesAlloc : U64) (maps : Maps) : Maps :=
  if hasKmemAllocNode then
    genAllocExit2 rodata ctx ptr
      (genAllocEnter rodata ctx bytesAlloc (freeMissing rodata ptr maps))
  else maps

def memleakKfree (ptr : U64) : Maps → Maps := genFreeEnter rodata ptr

def memleakKmemCacheAlloc (ptr bytesAlloc : U64) (maps : Maps) : Maps :=
  genAllocExit2 rodata ctx ptr
    (genAllocEnter rodata ctx bytesAlloc (freeMissing rodata ptr maps))

/-- The tracepoint does not exist. -/
def memleakKmemCacheAllocNode (ptr bytesAlloc : U64) (maps : Maps) : Maps :=
  if hasKmemAllocNode then
    genAllocExit2 rodata ctx ptr
      (genAllocEnter rodata ctx bytesAlloc (freeMissing rodata ptr maps))
  else maps

def memleakKmemCacheFree (ptr : U64) : Maps → Maps := genFreeEnter rodata ptr

/-- The size is `page_size << order`. -/
def memleakMmPageAlloc (pfn : U64) (order : U32) (maps : Maps) : Maps :=
  genAllocExit2 rodata ctx pfn
    (genAllocEnter rodata ctx (rodata.pageSize <<< order.toNat) maps)

def memleakMmPageFree (pfn : U64) : Maps → Maps := genFreeEnter rodata pfn

def memleakPercpuAllocPercpu (ptr bytesAlloc : U64) (maps : Maps) : Maps :=
  genAllocExit2 rodata ctx ptr (genAllocEnter rodata ctx bytesAlloc maps)

def memleakPercpuFreePercpu (ptr : U64) : Maps → Maps := genFreeEnter rodata ptr

end Programs

/-! ## Runs of all programs -/

/-- A tracepoint with the fields that its program reads. -/
inductive Tracepoint
  | kmalloc (ptr bytesAlloc : U64)
  | kmallocNode (ptr bytesAlloc : U64)
  | kfree (ptr : U64)
  | kmemCacheAlloc (ptr bytesAlloc : U64)
  | kmemCacheAllocNode (ptr bytesAlloc : U64)
  | kmemCacheFree (ptr : U64)
  | mmPageAlloc (pfn : U64) (order : U32)
  | mmPageFree (pfn : U64)
  | percpuAllocPercpu (ptr bytesAlloc : U64)
  | percpuFreePercpu (ptr : U64)

/-- Run the program of a tracepoint. -/
def Tracepoint.program (rodata : Rodata) (ctx : Context) : Tracepoint → Maps → Maps
  | .kmalloc ptr bytesAlloc => memleakKmalloc rodata ctx ptr bytesAlloc
  | .kmallocNode ptr bytesAlloc => memleakKmallocNode rodata ctx ptr bytesAlloc
  | .kfree ptr => memleakKfree rodata ptr
  | .kmemCacheAlloc ptr bytesAlloc => memleakKmemCacheAlloc rodata ctx ptr bytesAlloc
  | .kmemCacheAllocNode ptr bytesAlloc => memleakKmemCacheAllocNode rodata ctx ptr bytesAlloc
  | .kmemCacheFree ptr => memleakKmemCacheFree rodata ptr
  | .mmPageAlloc pfn order => memleakMmPageAlloc rodata ctx pfn order
  | .mmPageFree pfn => memleakMmPageFree rodata pfn
  | .percpuAllocPercpu ptr bytesAlloc => memleakPercpuAllocPercpu rodata ctx ptr bytesAlloc
  | .percpuFreePercpu ptr => memleakPercpuFreePercpu rodata ptr

/-- An event of a uprobe or a tracepoint. -/
inductive Hit
  | uprobe (event : Event)
  | tracepoint (ctx : Context) (tracepoint : Tracepoint)

/-- The context of a hit. -/
def Hit.ctx : Hit → Context
  | .uprobe event => event.ctx
  | .tracepoint ctx _ => ctx

/-- Run the program of a hit. -/
def hitStep (rodata : Rodata) (maps : Maps) : Hit → Maps
  | .uprobe event => step rodata maps event
  | .tracepoint ctx tracepoint => tracepoint.program rodata ctx maps

/-- Run the programs of a list of hits from the empty maps. -/
def runHits (rodata : Rodata) (hits : List Hit) : Maps :=
  run (hitStep rodata) Maps.empty hits

/-- A run of uprobe events only. -/
theorem runHits_uprobe (rodata : Rodata) (events : List Event) :
    runHits rodata (events.map .uprobe) = runEvents rodata events :=
  (run_map (hitStep rodata) .uprobe Maps.empty events).symm

/-- The size and the address that a tracepoint records, if it allocates. -/
def Tracepoint.request (rodata : Rodata) : Tracepoint → Option (U64 × U64)
  | .kmalloc ptr bytesAlloc => some (bytesAlloc, ptr)
  | .kmemCacheAlloc ptr bytesAlloc => some (bytesAlloc, ptr)
  | .mmPageAlloc pfn order => some (rodata.pageSize <<< order.toNat, pfn)
  | .percpuAllocPercpu ptr bytesAlloc => some (bytesAlloc, ptr)
  | _ => none

/-- The block that a tracepoint takes to be released. -/
def Tracepoint.released (rodata : Rodata) : Tracepoint → Option U64
  | .kmalloc ptr _ => if rodata.waMissingFree then some ptr else none
  | .kmemCacheAlloc ptr _ => if rodata.waMissingFree then some ptr else none
  | .kfree ptr => some ptr
  | .kmemCacheFree ptr => some ptr
  | .mmPageFree pfn => some pfn
  | .percpuFreePercpu ptr => some ptr
  | _ => none

/-- The maps after the release of a block, if one is given. -/
def releaseBlock (rodata : Rodata) (released : Option U64) (maps : Maps) : Maps :=
  match released with
  | none => maps
  | some ptr => genFreeEnter rodata ptr maps

/-- Every program of a tracepoint releases a block, or records one, or does the
one and then the other. -/
theorem Tracepoint.program_eq
    (rodata : Rodata)
    (ctx : Context)
    (tracepoint : Tracepoint)
    (maps : Maps) :
    tracepoint.program rodata ctx maps =
      match tracepoint.request rodata with
      | none => releaseBlock rodata (tracepoint.released rodata) maps
      | some (size, address) =>
          genAllocExit2 rodata ctx address
            (genAllocEnter rodata ctx size
              (releaseBlock rodata (tracepoint.released rodata) maps)) := by
  have missing : ∀ ptr, freeMissing rodata ptr maps =
      releaseBlock rodata (if rodata.waMissingFree then some ptr else none) maps := by
    intro ptr
    unfold freeMissing
    split <;> rfl
  cases tracepoint with
  | kmalloc ptr bytesAlloc =>
      simp only [program, memleakKmalloc, missing]
      rfl
  | kmemCacheAlloc ptr bytesAlloc =>
      simp only [program, memleakKmemCacheAlloc, missing]
      rfl
  | _ => rfl

/-- What releases, entries, exits and the accesses to `memptrs` preserve is
preserved by every program. -/
theorem hitStep_preserves
    (rodata : Rodata)
    (hit : Hit)
    (holds : Maps → Prop)
    (free : ∀ address maps, holds maps → holds (genFreeEnter rodata address maps))
    (enter : ∀ size maps, holds maps → holds (genAllocEnter rodata hit.ctx size maps))
    (exit : ∀ address maps, holds maps → holds (genAllocExit2 rodata hit.ctx address maps))
    (remember : ∀ memptr maps, holds maps → holds (maps.updateMemptrs hit.ctx memptr))
    (discard : ∀ maps, holds maps →
      holds { maps with memptrs := maps.memptrs.erase hit.ctx.tid })
    (maps : Maps)
    (start : holds maps) :
    holds (hitStep rodata maps hit) := by
  cases hit with
  | uprobe event =>
      obtain ⟨ctx, probe⟩ := event
      cases probe with
      | enter call =>
          simp only [hitStep, step, Call.enter_eq]
          split
          · exact enter _ _ (free _ _ start)
          · exact enter _ _ (remember _ _ start)
          · exact enter _ _ start
      | exit fn =>
          simp only [hitStep, step, AllocFn.exit_eq]
          split
          · unfold posixMemalignExit
            split
            · exact start
            · split
              · exact discard _ start
              · exact exit _ _ (discard _ start)
          · exact exit _ _ start
      | release call =>
          simp only [hitStep, step, Release.enter_eq]
          exact free _ _ start
  | tracepoint ctx tracepoint =>
      have released : holds (releaseBlock rodata (tracepoint.released rodata) maps) := by
        unfold releaseBlock
        split
        · exact start
        · exact free _ _ start
      simp only [hitStep, Tracepoint.program_eq]
      split
      · exact released
      · exact exit _ _ (enter _ _ released)

end Memleak
end EbpfHub
