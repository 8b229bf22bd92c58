import EbpfHub.Memleak.Memalign
import EbpfHub.Memleak.Rows
import Mathlib.Data.List.ReduceOption

/-!
# Captured frames on their way to the report

The words of the user stack that an entry captures, the records that carry them
through `sizes` and `allocs`, and the rows that copy them.
-/

namespace EbpfHub
namespace Memleak

open Foundations

/-! ## The captured words -/

/-- A word of the user stack of an event, `none` when it cannot be read. -/
def Context.stackWord (ctx : Context) (index : Nat) : Option U64 :=
  ctx.readUser (ctx.sp + BitVec.ofNat 64 (index * 8))

/-- The longest prefix of words that are readable and not zero. -/
def readablePrefix (words : List (Option U64)) : List U64 :=
  (words.takeWhile fun word => word.any (· ≠ 0)).reduceOption

/-- The longest prefix of the first words of the user stack that are all
readable and not zero. -/
def Context.stackPrefix (ctx : Context) : List U64 :=
  readablePrefix ((List.range maxManualStackDepth).map ctx.stackWord)

@[simp] theorem readablePrefix_nil : readablePrefix [] = [] := rfl

@[simp] theorem readablePrefix_none (words : List (Option U64)) :
    readablePrefix (none :: words) = [] := rfl

@[simp] theorem readablePrefix_zero (words : List (Option U64)) :
    readablePrefix (some 0 :: words) = [] := rfl

theorem readablePrefix_some
    {word : U64}
    (nonzero : word ≠ 0)
    (words : List (Option U64)) :
    readablePrefix (some word :: words) = word :: readablePrefix words := by
  have kept : ¬word = 0#64 := nonzero
  simp [readablePrefix, kept]

theorem length_readablePrefix_le (words : List (Option U64)) :
    (readablePrefix words).length ≤ words.length := by
  calc
    (readablePrefix words).length
        ≤ (words.takeWhile fun word => word.any (· ≠ 0)).length :=
          List.reduceOption_length_le _
    _ ≤ words.length := (List.takeWhile_sublist _).length_le

theorem Context.length_stackPrefix_le (ctx : Context) :
    ctx.stackPrefix.length ≤ maxManualStackDepth := by
  have bound := length_readablePrefix_le ((List.range maxManualStackDepth).map ctx.stackWord)
  rwa [List.length_map, List.length_range] at bound

/-- A captured stack: the count is the length of the prefix, the slots below it
are the words of the prefix, each minus one, and the others are zero. -/
structure Captures (ctx : Context) (manualStack : ManualStack) (manualStackCnt : Int) : Prop where
  count : manualStackCnt = ctx.stackPrefix.length
  slots : ∀ i : Fin maxManualStackDepth,
    manualStack i = (ctx.stackPrefix[i.val]?).elim 0 (· - 1)

/-- The capture loop goes through the slots from an index on and stores the
prefix of the words from there. -/
theorem captureLoop_spec
    (ctx : Context)
    (slots : List (Fin maxManualStackDepth))
    (sinfo : SizeInfo)
    (index : Nat)
    (remaining : slots = (List.finRange maxManualStackDepth).drop index)
    (inside : index ≤ maxManualStackDepth)
    (j : Fin maxManualStackDepth) :
    (captureLoop ctx.sp ctx.readUser slots sinfo).manualStackCnt =
        sinfo.manualStackCnt +
          (readablePrefix (slots.map fun i => ctx.stackWord i.val)).length ∧
      (captureLoop ctx.sp ctx.readUser slots sinfo).manualStack j =
        if j.val < index then sinfo.manualStack j
        else
          ((readablePrefix (slots.map fun i => ctx.stackWord i.val))[j.val - index]?).elim
            (sinfo.manualStack j) (· - 1) := by
  induction slots generalizing sinfo index with
  | nil => simp [captureLoop]
  | cons i rest inductionHypothesis =>
      obtain ⟨position, tail⟩ := of_cons_eq_drop_finRange remaining
      have word : ctx.readUser (ctx.sp + BitVec.ofNat 64 (i.val * 8)) = ctx.stackWord i.val := rfl
      unfold captureLoop
      rw [word, List.map_cons]
      cases found : ctx.stackWord i.val with
      | none => simp
      | some addr =>
          by_cases zero : addr = 0
          · subst zero
            rw [readablePrefix_zero]
            simp
          · have next : index + 1 ≤ maxManualStackDepth := position ▸ i.isLt
            obtain ⟨count, slot⟩ := inductionHypothesis
              { sinfo with
                manualStack := Function.update sinfo.manualStack i (addr - 1)
                manualStackCnt := sinfo.manualStackCnt + 1 } (index + 1) tail next
            rw [readablePrefix_some zero]
            dsimp only
            rw [if_pos zero, count, slot, List.length_cons]
            dsimp only
            refine ⟨by omega, ?_⟩
            rcases Nat.lt_trichotomy j.val index with below | here | above
            · have other : j ≠ i := fun same => by omega
              rw [if_pos (by omega), if_pos below]
              exact Function.update_of_ne other ..
            · have same : j = i := Fin.ext (by omega)
              subst same
              rw [if_pos (by omega), if_neg (by omega), here, Nat.sub_self,
                List.getElem?_cons_zero, Option.elim_some]
              exact Function.update_self ..
            · have other : j ≠ i := fun same => by omega
              have shifted : j.val - index = (j.val - (index + 1)) + 1 := by omega
              rw [if_neg (by omega), if_neg (by omega), shifted, List.getElem?_cons_succ]
              exact congrArg (Option.elim _ · _) (Function.update_of_ne other ..)

/-- What `gen_alloc_enter` captures. -/
theorem captures_captureSizeInfo (ctx : Context) (size : U64) :
    Captures ctx
      (captureSizeInfo size ctx.stackId ctx.sp ctx.readUser).manualStack
      (captureSizeInfo size ctx.stackId ctx.sp ctx.readUser).manualStackCnt := by
  have words : ((List.finRange maxManualStackDepth).map fun i => ctx.stackWord i.val) =
      (List.range maxManualStackDepth).map ctx.stackWord := by
    rw [← List.map_coe_finRange_eq_range, List.map_map]
    rfl
  constructor
  · have spec := (captureLoop_spec ctx _ ⟨size, ctx.stackId, fun _ => 0, 0⟩ 0 rfl
      (Nat.zero_le _) 0).1
    rw [List.drop_zero, words, zero_add] at spec
    exact spec
  · intro j
    have spec := (captureLoop_spec ctx _ ⟨size, ctx.stackId, fun _ => 0, 0⟩ 0 rfl
      (Nat.zero_le _) j).2
    rw [List.drop_zero, words, if_neg (Nat.not_lt_zero _), Nat.sub_zero] at spec
    exact spec

/-! ## Where the records of a run come from -/

/-- What the hit would store in an empty slot of its thread. -/
def Hit.capture (rodata : Rodata) : Hit → Option SizeInfo
  | .uprobe event => event.captured rodata
  | .tracepoint ctx kernel =>
      (kernel.request rodata).bind fun request => captureOf rodata ctx request.1

theorem captures_of_captureOf
    {rodata : Rodata}
    {ctx : Context}
    {size : U64}
    {sinfo : SizeInfo}
    (captured : captureOf rodata ctx size = some sinfo) :
    Captures ctx sinfo.manualStack sinfo.manualStackCnt := by
  unfold captureOf at captured
  split at captured
  · obtain rfl := Option.some.inj captured
    exact captures_captureSizeInfo ctx size
  · cases captured

/-- What a hit stores is the stack of its context. -/
theorem Hit.captures_of_capture
    {rodata : Rodata}
    {hit : Hit}
    {sinfo : SizeInfo}
    (captured : hit.capture rodata = some sinfo) :
    Captures hit.ctx sinfo.manualStack sinfo.manualStackCnt := by
  cases hit with
  | uprobe event =>
      obtain ⟨ctx, probe⟩ := event
      cases probe with
      | enter call => exact captures_of_captureOf captured
      | exit fn => cases captured
      | release call => cases captured
  | tracepoint ctx tracepoint =>
      obtain ⟨request, -, captured⟩ := Option.bind_eq_some_iff.mp captured
      exact captures_of_captureOf captured

/-- What a slot holds after a hit was captured by that hit or was there
before. -/
theorem slot_hitStep
    {rodata : Rodata}
    {maps : Maps}
    {hit : Hit}
    {tid : U32}
    {sinfo : SizeInfo}
    (after : (hitStep rodata maps hit).sizes.lookup tid = some sinfo) :
    (hit.ctx.tid = tid ∧ hit.capture rodata = some sinfo) ∨
      maps.sizes.lookup tid = some sinfo := by
  by_cases mine : hit.ctx.tid = tid
  · cases hit with
    | uprobe event =>
        rcases slot_step after with captured | ⟨before, -⟩
        · exact .inl captured
        · exact .inr before
    | tracepoint ctx tracepoint =>
        right
        simp only [hitStep, Tracepoint.program_eq] at after
        cases request : tracepoint.request rodata with
        | none =>
            rw [request] at after
            have same := congrFun
              (releaseBlock_threads rodata (tracepoint.released rodata) maps) tid
            exact (congrArg ThreadState.slot same).symm.trans after
        | some request' =>
            obtain ⟨size, address⟩ := request'
            rw [request] at after
            have emptied := (genAllocExit2_thread rodata ctx address
              (genAllocEnter rodata ctx size
                (releaseBlock rodata (tracepoint.released rodata) maps))).1
            have thread : ctx.tid = tid := mine
            rw [thread] at emptied
            rw [emptied] at after
            cases after
  · have same := hitStep_threads_of_ne rodata hit mine maps
    exact .inr ((congrArg ThreadState.slot same).symm.trans after)

/-- The slot that `gen_alloc_enter` leaves was there or is its capture. -/
theorem slot_genAllocEnter
    {rodata : Rodata}
    {ctx : Context}
    {size : U64}
    {maps : Maps}
    {sinfo : SizeInfo}
    (after : (genAllocEnter rodata ctx size maps).sizes.lookup ctx.tid = some sinfo) :
    maps.sizes.lookup ctx.tid = some sinfo ∨ captureOf rodata ctx size = some sinfo := by
  rw [genAllocEnter_slot] at after
  rcases Option.or_eq_some_iff.mp after with before | ⟨_, captured⟩
  · exact .inl before
  · right
    split at captured
    · next stored => rwa [captureOf, if_pos stored.1]
    · cases captured

/-- A record that is present after a hit was there before, or was made from the
slot of the hit's thread, or from what the hit captured itself. -/
theorem allocs_hitStep
    {rodata : Rodata}
    {maps : Maps}
    {hit : Hit}
    {address : U64}
    {info : AllocInfo}
    (after : (hitStep rodata maps hit).allocs.lookup address = some info) :
    (∃ sinfo, info = allocInfoOf sinfo hit.ctx.ktime ∧
        (maps.sizes.lookup hit.ctx.tid = some sinfo ∨ hit.capture rodata = some sinfo)) ∨
      maps.allocs.lookup address = some info := by
  cases hit with
  | uprobe event =>
      rcases allocs_step after with inserts | before
      · obtain ⟨sinfo, -, slot, -, made⟩ := of_insertion inserts
        exact .inl ⟨sinfo, made, .inl slot⟩
      · exact .inr before
  | tracepoint ctx tracepoint =>
      have released : ∀ {info : AllocInfo},
          (releaseBlock rodata (tracepoint.released rodata) maps).allocs.lookup address =
            some info → maps.allocs.lookup address = some info := by
        intro info present
        have same := congrFun
          (releaseBlock_allocs rodata (tracepoint.released rodata) maps) address
        exact (of_forget_eq_some (same.symm.trans present)).2
      simp only [hitStep, Tracepoint.program_eq] at after
      cases request : tracepoint.request rodata with
      | none =>
          rw [request] at after
          exact .inr (released after)
      | some request' =>
          obtain ⟨size, place⟩ := request'
          rw [request] at after
          dsimp only at after
          rw [genAllocExit2_allocs, genAllocEnter_allocs] at after
          cases slot : (genAllocEnter rodata ctx size
              (releaseBlock rodata (tracepoint.released rodata) maps)).sizes.lookup ctx.tid with
          | none =>
              rw [slot] at after
              exact .inr (released after)
          | some sinfo =>
              rw [slot] at after
              dsimp only at after
              split at after
              · by_cases here : address = place
                · subst here
                  rw [Function.update_self] at after
                  refine .inl ⟨sinfo, (Option.some.inj after).symm, ?_⟩
                  have threads := congrFun
                    (releaseBlock_threads rodata (tracepoint.released rodata) maps) ctx.tid
                  rcases slot_genAllocEnter slot with before | captured
                  · exact .inl ((congrArg ThreadState.slot threads).symm.trans before)
                  · exact .inr (by simp only [Hit.capture, request, Option.bind_some, captured])
                · rw [Function.update_of_ne here] at after
                  exact .inr (released after)
              · exact .inr (released after)

/-! ## Where every record comes from -/

/-- An entry of `sizes`, seen after a number of hits, stems from the hit at an
earlier index: a hit of its thread captured it and it has been there since. -/
structure SlotOrigin
    (rodata : Rodata)
    (hits : List Hit)
    (count : Nat)
    (tid : U32)
    (sinfo : SizeInfo)
    (source : Nat)
    (enter : Hit) : Prop where
  earlier : source < count
  found : hits[source]? = some enter
  thread : enter.ctx.tid = tid
  captured : enter.capture rodata = some sinfo
  kept : ∀ between, source < between → between ≤ count →
    (runHits rodata (hits.take between)).sizes.lookup tid = some sinfo

/-- A record of `allocs`, seen after a number of hits, was made by the hit at an
earlier index and has been there since.  It copies what an enter captured: the
one that the entry of the thread stems from, or that of the hit itself, where
the program of a tracepoint enters and exits at once. -/
structure RecordOrigin
    (rodata : Rodata)
    (hits : List Hit)
    (count : Nat)
    (address : U64)
    (info : AllocInfo)
    (index : Nat)
    (exit enter : Hit)
    (sinfo : SizeInfo) : Prop where
  earlier : index < count
  found : hits[index]? = some exit
  made : info = allocInfoOf sinfo exit.ctx.ktime
  entered : (∃ source, SlotOrigin rodata hits index exit.ctx.tid sinfo source enter) ∨
    enter = exit ∧ exit.capture rodata = some sinfo
  kept : ∀ between, index < between → between ≤ count →
    (runHits rodata (hits.take between)).allocs.lookup address = some info

/-- Every entry of `sizes` has an origin. -/
theorem exists_slotOrigin
    {rodata : Rodata}
    {hits : List Hit}
    {count : Nat}
    {tid : U32}
    {sinfo : SizeInfo}
    (inside : count ≤ hits.length)
    (present : (runHits rodata (hits.take count)).sizes.lookup tid = some sinfo) :
    ∃ source enter, SlotOrigin rodata hits count tid sinfo source enter := by
  have absent : ¬(Maps.empty.sizes.lookup tid = some sinfo) := by
    rw [Maps.empty, BoundedMap.lookup_empty]
    exact fun found => by cases found
  obtain ⟨source, enter, earlier, found, ⟨thread, captured⟩, kept⟩ :=
    run_since_kept (hitStep rodata) Maps.empty hits
      (fun maps => maps.sizes.lookup tid = some sinfo)
      (fun _ hit => hit.ctx.tid = tid ∧ hit.capture rodata = some sinfo)
      (fun _ _ after => slot_hitStep after) absent count inside present
  exact ⟨source, enter, earlier, found, thread, captured, kept⟩

/-- Every record of `allocs` has an origin. -/
theorem exists_recordOrigin
    {rodata : Rodata}
    {hits : List Hit}
    {count : Nat}
    {address : U64}
    {info : AllocInfo}
    (inside : count ≤ hits.length)
    (present : (runHits rodata (hits.take count)).allocs.lookup address = some info) :
    ∃ index exit enter sinfo,
      RecordOrigin rodata hits count address info index exit enter sinfo := by
  have absent : ¬(Maps.empty.allocs.lookup address = some info) := by
    rw [Maps.empty, BoundedMap.lookup_empty]
    exact fun found => by cases found
  obtain ⟨index, exit, earlier, found, ⟨sinfo, made, source⟩, kept⟩ :=
    run_since_kept (hitStep rodata) Maps.empty hits
      (fun maps => maps.allocs.lookup address = some info)
      (fun maps hit => ∃ sinfo, info = allocInfoOf sinfo hit.ctx.ktime ∧
        (maps.sizes.lookup hit.ctx.tid = some sinfo ∨ hit.capture rodata = some sinfo))
      (fun _ _ after => allocs_hitStep after) absent count inside present
  rcases source with slot | captured
  · obtain ⟨source, enter, origin⟩ := exists_slotOrigin (by omega) slot
    exact ⟨index, exit, enter, sinfo, earlier, found, made, .inl ⟨source, origin⟩, kept⟩
  · exact ⟨index, exit, exit, sinfo, earlier, found, made, .inr ⟨rfl, captured⟩, kept⟩

/-- A record has what the enter that it stems from captured. -/
theorem RecordOrigin.captured
    {rodata : Rodata}
    {hits : List Hit}
    {count : Nat}
    {address : U64}
    {info : AllocInfo}
    {index : Nat}
    {exit enter : Hit}
    {sinfo : SizeInfo}
    (origin : RecordOrigin rodata hits count address info index exit enter sinfo) :
    enter.capture rodata = some sinfo := by
  rcases origin.entered with ⟨source, slot⟩ | ⟨rfl, captured⟩
  · exact slot.captured
  · exact captured

/-! ## The copies -/

namespace Captures

variable {ctx : Context} {manualStack : ManualStack} {manualStackCnt : Int}

/-- The count of a captured stack is within the array. -/
theorem bounds (captures : Captures ctx manualStack manualStackCnt) :
    0 ≤ manualStackCnt ∧ manualStackCnt ≤ maxManualStackDepth := by
  have short := ctx.length_stackPrefix_le
  rw [captures.count]
  omega

/-- The slots of a captured stack from the count on are zero. -/
theorem slot_above
    (captures : Captures ctx manualStack manualStackCnt)
    {i : Fin maxManualStackDepth}
    (above : manualStackCnt ≤ i.val) :
    manualStack i = 0 := by
  have outside : ctx.stackPrefix.length ≤ i.val := by
    rw [captures.count] at above
    omega
  rw [captures.slots, List.getElem?_eq_none outside, Option.elim_none]

/-- A copy of the slots below the count into a cleared record has all slots. -/
theorem copy
    (captures : Captures ctx manualStack manualStackCnt) :
    copyManualStack manualStack manualStackCnt (List.finRange maxManualStackDepth) (fun _ => 0) =
      manualStack := by
  funext i
  rw [copyManualStack_apply _ _ _ (List.pairwise_lt_finRange _)]
  split
  · rfl
  · next uncopied =>
    have above : manualStackCnt ≤ i.val := by
      by_contra below
      exact uncopied ⟨List.mem_finRange i, by omega⟩
    exact (captures.slot_above above).symm

end Captures

/-- A record has the captured stack of the enter that it stems from. -/
theorem RecordOrigin.captures
    {rodata : Rodata}
    {hits : List Hit}
    {count : Nat}
    {address : U64}
    {info : AllocInfo}
    {index : Nat}
    {exit enter : Hit}
    {sinfo : SizeInfo}
    (origin : RecordOrigin rodata hits count address info index exit enter sinfo) :
    Captures enter.ctx info.manualStack info.manualStackCnt := by
  have captures := Hit.captures_of_capture origin.captured
  rw [origin.made]
  have copied : (allocInfoOf sinfo exit.ctx.ktime).manualStack = sinfo.manualStack := captures.copy
  rw [copied]
  exact captures

/-- A record with a stack that has no row yet starts a new row. -/
theorem Report.addInfo_new
    {report : Report}
    {info : AllocInfo}
    (new : findStack report.allocs (info.stackId.signExtend 64) report.nrAllocs 0 = none) :
    (report.addInfo info).allocs report.nrAllocs = Allocation.ofInfo info := by
  unfold addInfo
  rw [new]
  exact Function.update_self ..

/-- After every run, every entry of `sizes` and every record of `allocs` has the
stack that the enter it stems from captured: the count is within the array, the
slots below it are the readable and not zero words of the user stack minus one,
and the others are zero.  A row that the report starts with a record has the
same count and slots. -/
theorem manual_stacks_well_formed
    (rodata : Rodata)
    (hits : List Hit) :
    (∀ tid sinfo, (runHits rodata hits).sizes.lookup tid = some sinfo →
      ∃ source enter, SlotOrigin rodata hits hits.length tid sinfo source enter ∧
        0 ≤ sinfo.manualStackCnt ∧ sinfo.manualStackCnt ≤ maxManualStackDepth ∧
        Captures enter.ctx sinfo.manualStack sinfo.manualStackCnt) ∧
    ∀ address info, (runHits rodata hits).allocs.lookup address = some info →
      (∃ index exit enter sinfo,
        RecordOrigin rodata hits hits.length address info index exit enter sinfo ∧
        0 ≤ info.manualStackCnt ∧ info.manualStackCnt ≤ maxManualStackDepth ∧
        Captures enter.ctx info.manualStack info.manualStackCnt) ∧
      ∀ report : Report,
        Report.findStack report.allocs (info.stackId.signExtend 64) report.nrAllocs 0 = none →
        ((report.addInfo info).allocs report.nrAllocs).manualStackCnt = info.manualStackCnt ∧
          ((report.addInfo info).allocs report.nrAllocs).manualStack = info.manualStack := by
  constructor
  · intro tid sinfo present
    obtain ⟨source, enter, origin⟩ := exists_slotOrigin (Nat.le_refl _)
      (by rwa [List.take_length])
    have captures := Hit.captures_of_capture origin.captured
    exact ⟨source, enter, origin, captures.bounds.1, captures.bounds.2, captures⟩
  · intro address info present
    obtain ⟨index, exit, enter, sinfo, origin⟩ := exists_recordOrigin (Nat.le_refl _)
      (by rwa [List.take_length])
    have captures := origin.captures
    refine ⟨⟨index, exit, enter, sinfo, origin, captures.bounds.1, captures.bounds.2, captures⟩, ?_⟩
    intro report new
    rw [Report.addInfo_new new]
    exact ⟨rfl, captures.copy⟩

end Memleak
end EbpfHub
