import Mathlib.Data.BitVec
import Mathlib.Data.Fintype.Pi
import Mathlib.Data.List.FinRange

/-!
# The records that memleak keeps in its BPF maps

The constants and structures of `memleak.h`, and the loops of `memleak.bpf.c`
that fill a record: the capture of the user stack on an allocation's entry and
the copy of the captured frames on its exit.
-/

namespace EbpfHub
namespace Memleak

/-- A `u64` of the source. -/
abbrev U64 := BitVec 64

/-- A `u32` of the source. -/
abbrev U32 := BitVec 32

/-- A stack identifier is the same as an `int` and as a 64-bit value. -/
theorem signExtend_inj {first second : BitVec 32} :
    first.signExtend 64 = second.signExtend 64 ↔ first = second := by
  constructor
  · intro same
    have integers := congrArg BitVec.toInt same
    rw [BitVec.toInt_signExtend_of_le (by decide), BitVec.toInt_signExtend_of_le (by decide)]
      at integers
    exact BitVec.toInt_inj.mp integers
  · rintro rfl
    rfl

/-- `ALLOCS_MAX_ENTRIES`. -/
abbrev allocsMaxEntries : Nat := 1000000

/-- `max_entries` of the maps `sizes` and `memptrs`. -/
abbrev threadMapMaxEntries : Nat := 10240

/-- `max_entries` of the map `combined_allocs`. -/
abbrev combinedAllocsMaxEntries : Nat := 1

/-- `MAP_FAILED`, the integer -1 converted to `u64`. -/
def mapFailed : U64 := -1

/-- `MAX_MANUAL_STACK_DEPTH`. -/
abbrev maxManualStackDepth : Nat := 8

/-- The frames of a manually captured stack. -/
abbrev ManualStack := Fin maxManualStackDepth → U64

/-- `struct size_info`: what an allocation's entry leaves for its exit. -/
structure SizeInfo where
  size : U64
  stackId : BitVec 32
  manualStack : ManualStack
  manualStackCnt : Int
  deriving DecidableEq

/-- `struct alloc_info`: the record of an outstanding allocation. -/
structure AllocInfo where
  size : U64
  timestampNs : U64
  stackId : BitVec 32
  manualStack : ManualStack
  manualStackCnt : Int
  deriving DecidableEq

/-! ## The combined statistics of one stack -/

/-- `union combined_alloc_info`: 40 bits of `total_size` below 24 bits of
`number_of_allocs`, seen as one word. -/
structure CombinedAllocInfo where
  bits : U64
  deriving DecidableEq

namespace CombinedAllocInfo

/-- The bit-field `total_size`. -/
def totalSize (info : CombinedAllocInfo) : BitVec 40 :=
  info.bits.extractLsb' 0 40

/-- The bit-field `number_of_allocs`. -/
def numberOfAllocs (info : CombinedAllocInfo) : BitVec 24 :=
  info.bits.extractLsb' 40 24

/-- The union with the given bit-fields. -/
def pack (total : BitVec 40) (number : BitVec 24) : CombinedAllocInfo :=
  ⟨number ++ total⟩

@[simp] theorem totalSize_pack (total : BitVec 40) (number : BitVec 24) :
    (pack total number).totalSize = total :=
  BitVec.extractLsb'_append_eq_right

@[simp] theorem numberOfAllocs_pack (total : BitVec 40) (number : BitVec 24) :
    (pack total number).numberOfAllocs = number := by
  rw [numberOfAllocs, pack, BitVec.extractLsb'_append_eq_of_le (by decide)]
  simp

/-- `initial_cinfo`. -/
def initial : CombinedAllocInfo := ⟨0⟩

/-- `total_size += sz; number_of_allocs += 1`. -/
def add (info : CombinedAllocInfo) (sz : U64) : CombinedAllocInfo :=
  pack (info.totalSize + sz.setWidth 40) (info.numberOfAllocs + 1)

/-- `total_size -= sz; number_of_allocs -= 1`. -/
def del (info : CombinedAllocInfo) (sz : U64) : CombinedAllocInfo :=
  pack (info.totalSize - sz.setWidth 40) (info.numberOfAllocs - 1)

theorem add_add_comm (info : CombinedAllocInfo) (first second : U64) :
    (info.add first).add second = (info.add second).add first := by
  simp only [add, totalSize_pack, numberOfAllocs_pack]
  rw [add_right_comm]

theorem del_del_comm (info : CombinedAllocInfo) (first second : U64) :
    (info.del first).del second = (info.del second).del first := by
  simp only [del, totalSize_pack, numberOfAllocs_pack, sub_right_comm]

theorem add_del_comm (info : CombinedAllocInfo) (added deleted : U64) :
    (info.add added).del deleted = (info.del deleted).add added := by
  simp only [add, del, totalSize_pack, numberOfAllocs_pack, add_sub_right_comm]

end CombinedAllocInfo

/-! ## The stack capture of `gen_alloc_enter` -/

/-- The capture loop over the given slots.  `readUser` is
`bpf_probe_read_user` of one word, `none` when the read fails; an unreadable or
zero word ends the loop. -/
def captureLoop
    (sp : U64)
    (readUser : U64 → Option U64) :
    List (Fin maxManualStackDepth) → SizeInfo → SizeInfo
  | [], sinfo => sinfo
  | i :: rest, sinfo =>
      match readUser (sp + BitVec.ofNat 64 (i.val * 8)) with
      | none => sinfo
      | some addr =>
          if addr ≠ 0 then
            captureLoop sp readUser rest
              { sinfo with
                manualStack := Function.update sinfo.manualStack i (addr - 1)
                manualStackCnt := sinfo.manualStackCnt + 1 }
          else sinfo

/-- The `struct size_info` that `gen_alloc_enter` builds. -/
def captureSizeInfo
    (size : U64)
    (stackId : BitVec 32)
    (sp : U64)
    (readUser : U64 → Option U64) : SizeInfo :=
  captureLoop sp readUser (List.finRange maxManualStackDepth)
    { size := size, stackId := stackId, manualStack := fun _ => 0, manualStackCnt := 0 }

@[simp] theorem captureLoop_size
    (sp : U64)
    (readUser : U64 → Option U64)
    (slots : List (Fin maxManualStackDepth))
    (sinfo : SizeInfo) :
    (captureLoop sp readUser slots sinfo).size = sinfo.size := by
  induction slots generalizing sinfo with
  | nil => rfl
  | cons i rest inductionHypothesis =>
      unfold captureLoop
      split
      · rfl
      · split
        · rw [inductionHypothesis]
        · rfl

@[simp] theorem captureLoop_stackId
    (sp : U64)
    (readUser : U64 → Option U64)
    (slots : List (Fin maxManualStackDepth))
    (sinfo : SizeInfo) :
    (captureLoop sp readUser slots sinfo).stackId = sinfo.stackId := by
  induction slots generalizing sinfo with
  | nil => rfl
  | cons i rest inductionHypothesis =>
      unfold captureLoop
      split
      · rfl
      · split
        · rw [inductionHypothesis]
        · rfl

@[simp] theorem captureSizeInfo_size
    (size : U64)
    (stackId : BitVec 32)
    (sp : U64)
    (readUser : U64 → Option U64) :
    (captureSizeInfo size stackId sp readUser).size = size := by
  simp [captureSizeInfo]

@[simp] theorem captureSizeInfo_stackId
    (size : U64)
    (stackId : BitVec 32)
    (sp : U64)
    (readUser : U64 → Option U64) :
    (captureSizeInfo size stackId sp readUser).stackId = stackId := by
  simp [captureSizeInfo]

/-! ## Captured records are padded with zeros -/

/-- The count of a captured stack is within its array and every slot from the
count on is zero. -/
structure SizeInfo.Padded (sinfo : SizeInfo) : Prop where
  count_nonneg : 0 ≤ sinfo.manualStackCnt
  count_le : sinfo.manualStackCnt ≤ maxManualStackDepth
  zero_above : ∀ i : Fin maxManualStackDepth,
    sinfo.manualStackCnt ≤ i.val → sinfo.manualStack i = 0

/-- The slots from an index on begin with the slot at the index. -/
theorem of_cons_eq_drop_finRange
    {n index : Nat}
    {i : Fin n}
    {rest : List (Fin n)}
    (remaining : i :: rest = (List.finRange n).drop index) :
    i.val = index ∧ rest = (List.finRange n).drop (index + 1) := by
  have inRange : index < (List.finRange n).length := by
    by_contra outside
    rw [List.drop_eq_nil_of_le (by omega)] at remaining
    cases remaining
  rw [List.drop_eq_getElem_cons inRange] at remaining
  obtain ⟨head, tail⟩ := List.cons.inj remaining
  refine ⟨?_, tail⟩
  rw [head]
  simp

/-- The capture loop keeps its count equal to the index of the next slot, so it
leaves no gap below the count. -/
theorem captureLoop_padded
    (sp : U64)
    (readUser : U64 → Option U64)
    (slots : List (Fin maxManualStackDepth))
    (sinfo : SizeInfo)
    (index : Nat)
    (remaining : slots = (List.finRange maxManualStackDepth).drop index)
    (counted : sinfo.manualStackCnt = index)
    (padded : sinfo.Padded) :
    (captureLoop sp readUser slots sinfo).Padded := by
  induction slots generalizing sinfo index with
  | nil => exact padded
  | cons i rest inductionHypothesis =>
      obtain ⟨position, tail⟩ := of_cons_eq_drop_finRange remaining
      unfold captureLoop
      split
      · exact padded
      · split
        · apply inductionHypothesis _ (index + 1) tail
          · simp [counted]
          · refine ⟨?_, ?_, ?_⟩
            · simp only [counted]
              omega
            · have := i.isLt
              simp only [counted]
              omega
            · intro other above
              simp only [counted] at above
              have different : other ≠ i := by
                intro same
                subst same
                omega
              simp only [Function.update_of_ne different]
              apply padded.zero_above
              omega
        · exact padded

/-- What `gen_alloc_enter` captures is padded. -/
theorem captureSizeInfo_padded
    (size : U64)
    (stackId : BitVec 32)
    (sp : U64)
    (readUser : U64 → Option U64) :
    (captureSizeInfo size stackId sp readUser).Padded :=
  captureLoop_padded sp readUser _ _ 0 rfl rfl
    ⟨le_refl _, by simp, fun _ _ => rfl⟩

/-! ## The copy of `gen_alloc_exit2` -/

/-- The loop that copies the captured frames, over the given slots. -/
def copyManualStack
    (source : ManualStack)
    (count : Int) :
    List (Fin maxManualStackDepth) → ManualStack → ManualStack
  | [], target => target
  | i :: rest, target =>
      if (i.val : Int) < count then
        copyManualStack source count rest (Function.update target i (source i))
      else target

/-- The `struct alloc_info` that `gen_alloc_exit2` builds from the captured
`struct size_info`. -/
def allocInfoOf (sinfo : SizeInfo) (ktime : U64) : AllocInfo where
  size := sinfo.size
  timestampNs := ktime
  stackId := sinfo.stackId
  manualStack :=
    copyManualStack sinfo.manualStack sinfo.manualStackCnt
      (List.finRange maxManualStackDepth) fun _ => 0
  manualStackCnt := sinfo.manualStackCnt

/-- The copy loop over increasing slots copies those below the count. -/
theorem copyManualStack_apply
    (source : ManualStack)
    (count : Int)
    (slots : List (Fin maxManualStackDepth))
    (increasing : slots.Pairwise (· < ·))
    (target : ManualStack)
    (j : Fin maxManualStackDepth) :
    copyManualStack source count slots target j =
      if j ∈ slots ∧ (j.val : Int) < count then source j else target j := by
  induction slots generalizing target with
  | nil => simp [copyManualStack]
  | cons i rest inductionHypothesis =>
      obtain ⟨above, restIncreasing⟩ := List.pairwise_cons.mp increasing
      unfold copyManualStack
      by_cases below : (i.val : Int) < count
      · rw [if_pos below, inductionHypothesis restIncreasing]
        by_cases same : j = i
        · subst same
          simp [below]
        · simp [same]
      · rw [if_neg below]
        have noneBelow : ¬(j ∈ i :: rest ∧ (j.val : Int) < count) := by
          rintro ⟨member, small⟩
          rcases List.mem_cons.mp member with same | later
          · subst same
            exact below small
          · have order : i.val < j.val := above j later
            omega
        rw [if_neg noneBelow]

/-- The exit copies the frames below the count and leaves zeros above. -/
theorem allocInfoOf_manualStack
    (sinfo : SizeInfo)
    (ktime : U64)
    (j : Fin maxManualStackDepth) :
    (allocInfoOf sinfo ktime).manualStack j =
      if (j.val : Int) < sinfo.manualStackCnt then sinfo.manualStack j else 0 := by
  simp only [allocInfoOf]
  rw [copyManualStack_apply _ _ _ (List.pairwise_lt_finRange _)]
  simp

/-- A padded capture is copied whole. -/
theorem SizeInfo.Padded.allocInfoOf_manualStack
    {sinfo : SizeInfo}
    (padded : sinfo.Padded)
    (ktime : U64) :
    (allocInfoOf sinfo ktime).manualStack = sinfo.manualStack := by
  funext j
  rw [Memleak.allocInfoOf_manualStack]
  split
  · rfl
  · next above => exact (padded.zero_above j (by omega)).symm

end Memleak
end EbpfHub
