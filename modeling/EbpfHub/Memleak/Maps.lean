import EbpfHub.Foundations.BoundedMap
import EbpfHub.Memleak.Records

/-!
# The BPF maps of memleak and the functions that access them

The state of `memleak.bpf.c` is the content of its maps.  A program that runs
on an event finds the circumstances of the event in its context: the thread,
the clock, the registers, the readable words of user memory, the result of
`bpf_get_stackid`, and which map updates the kernel refuses.
-/

namespace EbpfHub
namespace Memleak

open Foundations

/-- The read-only data that `main` sets before it loads the programs. -/
structure Rodata where
  minSize : U64
  maxSize : U64
  pageSize : U64
  sampleRate : U64
  waMissingFree : Bool
  combinedOnly : Bool

/-- The settings that `main` installs. -/
def Rodata.main (pageSize : U64) : Rodata where
  minSize := 0
  maxSize := -1
  pageSize := pageSize
  sampleRate := 1
  waMissingFree := false
  combinedOnly := false

/-- The settings of `main` with combined statistics. -/
def combinedSettings : Rodata := { Rodata.main 4096 with combinedOnly := true }

/-- The map updates that fail although the map has room. -/
structure UpdateFaults where
  sizes : Bool
  allocs : Bool
  combinedAllocs : Bool
  memptrs : Bool
  deriving DecidableEq

/-- No update fails for want of anything but room. -/
def UpdateFaults.none : UpdateFaults := ⟨false, false, false, false⟩

/-- What a program observes of the event it runs on. -/
structure Context where
  /-- `bpf_get_current_pid_tgid()`. -/
  pidTgid : U64
  /-- `bpf_ktime_get_ns()`. -/
  ktime : U64
  /-- `bpf_get_stackid(ctx, &stack_traces, stack_flags)`. -/
  stackId : BitVec 32
  /-- `regs->sp`. -/
  sp : U64
  /-- `PT_REGS_RC(ctx)`. -/
  rc : U64
  /-- `bpf_probe_read_user` of a word, `none` when the read fails. -/
  readUser : U64 → Option U64
  /-- The updates that the kernel refuses. -/
  faults : UpdateFaults

/-- The thread identifier, the low half of `pid_tgid`. -/
def Context.tid (ctx : Context) : U32 := ctx.pidTgid.setWidth 32

/-- The context of an event that observes only its thread and a return value:
no word of user memory is readable and no update is refused. -/
def Context.quiet (tid : U32) (rc : U64) : Context where
  pidTgid := tid.setWidth 64
  ktime := 0
  stackId := 0
  sp := 0
  rc := rc
  readUser := fun _ => none
  faults := .none

@[simp] theorem Context.quiet_tid (tid : U32) (rc : U64) : (quiet tid rc).tid = tid := by
  simp [quiet, Context.tid]

/-- The BPF maps.  `failedUpdates` counts the calls of `bpf_map_update_elem`
that returned an error; no program reads it, as the source ignores these
return values. -/
structure Maps where
  sizes : BoundedMap U32 SizeInfo (some threadMapMaxEntries)
  allocs : BoundedMap U64 AllocInfo (some allocsMaxEntries)
  combinedAllocs : BoundedMap U64 CombinedAllocInfo (some combinedAllocsMaxEntries)
  memptrs : BoundedMap U32 U64 (some threadMapMaxEntries)
  failedUpdates : Nat

/-- The maps after loading. -/
def Maps.empty : Maps where
  sizes := .empty
  allocs := .empty
  combinedAllocs := .empty
  memptrs := .empty
  failedUpdates := 0

/-- `bpf_map_update_elem` with `BPF_ANY`. -/
def bpfMapUpdateElem [DecidableEq κ]
    (fault : Bool)
    (map : BoundedMap κ ν limit)
    (key : κ)
    (value : ν) : Option (BoundedMap κ ν limit) :=
  if fault then none else map.tryInsert key value

/-- `bpf_map_lookup_or_try_init`: the map and the value now under the key. -/
def bpfMapLookupOrTryInit [DecidableEq κ]
    (fault : Bool)
    (map : BoundedMap κ ν limit)
    (key : κ)
    (init : ν) : Option (BoundedMap κ ν limit × ν) :=
  match map.lookup key with
  | some val => some (map, val)
  | none =>
      match bpfMapUpdateElem fault map key init with
      | none => none
      | some map => (map.lookup key).map fun val => (map, val)

namespace Maps

/-- `bpf_map_update_elem(&sizes, &tid, &sinfo, BPF_ANY)`. -/
def updateSizes (ctx : Context) (sinfo : SizeInfo) (maps : Maps) : Maps :=
  match bpfMapUpdateElem ctx.faults.sizes maps.sizes ctx.tid sinfo with
  | none => { maps with failedUpdates := maps.failedUpdates + 1 }
  | some sizes => { maps with sizes := sizes }

/-- `bpf_map_update_elem(&allocs, &address, &info, BPF_ANY)`. -/
def updateAllocs (ctx : Context) (address : U64) (info : AllocInfo) (maps : Maps) : Maps :=
  match bpfMapUpdateElem ctx.faults.allocs maps.allocs address info with
  | none => { maps with failedUpdates := maps.failedUpdates + 1 }
  | some allocs => { maps with allocs := allocs }

/-- `bpf_map_update_elem(&memptrs, &tid, &memptr64, BPF_ANY)`. -/
def updateMemptrs (ctx : Context) (memptr64 : U64) (maps : Maps) : Maps :=
  match bpfMapUpdateElem ctx.faults.memptrs maps.memptrs ctx.tid memptr64 with
  | none => { maps with failedUpdates := maps.failedUpdates + 1 }
  | some memptrs => { maps with memptrs := memptrs }

end Maps

/-- The statistics of a stack are kept under its identifier as `u64`. -/
def statisticsKey (stackId : BitVec 32) : U64 := stackId.signExtend 64

/-- `update_statistics_add`. -/
def updateStatisticsAdd (ctx : Context) (stackId : U64) (sz : U64) (maps : Maps) : Maps :=
  match bpfMapLookupOrTryInit ctx.faults.combinedAllocs maps.combinedAllocs stackId
      CombinedAllocInfo.initial with
  | none => { maps with failedUpdates := maps.failedUpdates + 1 }
  | some (combinedAllocs, _) =>
      { maps with combinedAllocs := combinedAllocs.modify stackId (·.add sz) }

/-- `update_statistics_del`. -/
def updateStatisticsDel (stackId : U64) (sz : U64) (maps : Maps) : Maps :=
  match maps.combinedAllocs.lookup stackId with
  | none => maps
  | some _ =>
      { maps with combinedAllocs := maps.combinedAllocs.modify stackId (·.del sz) }

/-- `gen_alloc_enter`. -/
def genAllocEnter (rodata : Rodata) (ctx : Context) (size : U64) (maps : Maps) : Maps :=
  if size < rodata.minSize ∨ size > rodata.maxSize then maps
  else if rodata.sampleRate > 1 ∧ ctx.ktime % rodata.sampleRate ≠ 0 then maps
  else
    match maps.sizes.lookup ctx.tid with
    | some _ => maps -- an existing entry is kept
    | none =>
        maps.updateSizes ctx (captureSizeInfo size ctx.stackId ctx.sp ctx.readUser)

/-- `gen_alloc_exit2`. -/
def genAllocExit2 (rodata : Rodata) (ctx : Context) (address : U64) (maps : Maps) : Maps :=
  match maps.sizes.lookup ctx.tid with
  | none => maps -- missed alloc entry
  | some sinfo =>
      let info := allocInfoOf sinfo ctx.ktime
      let maps := { maps with sizes := maps.sizes.erase ctx.tid }
      if address ≠ 0 ∧ address ≠ mapFailed then
        let maps := maps.updateAllocs ctx address info
        if rodata.combinedOnly then
          updateStatisticsAdd ctx (statisticsKey info.stackId) info.size maps
        else maps
      else maps

/-- `gen_alloc_exit`. -/
def genAllocExit (rodata : Rodata) (ctx : Context) (maps : Maps) : Maps :=
  genAllocExit2 rodata ctx ctx.rc maps

/-- `gen_free_enter`. -/
def genFreeEnter (rodata : Rodata) (address : U64) (maps : Maps) : Maps :=
  match maps.allocs.lookup address with
  | none => maps
  | some info =>
      let maps := { maps with allocs := maps.allocs.erase address }
      if rodata.combinedOnly then
        updateStatisticsDel (statisticsKey info.stackId) info.size maps
      else maps

end Memleak
end EbpfHub
