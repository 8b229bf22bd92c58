import EbpfHub.Foundations.MapTotal
import EbpfHub.Memleak.KernelRecords
import EbpfHub.Memleak.Provenance

/-!
# The combined statistics against the records

With `combined_only` the map `combined_allocs` keeps, for every stack, the
number and the total size of the records in `allocs`.  The two maps are updated
one after the other.  They go on agreeing exactly when every exit that records a
block either finds room in both and a free address, or fails in both.
-/

namespace EbpfHub
namespace Memleak

open Foundations

/-- The statistics of a stack, the initial ones where there is no entry. -/
def Maps.statistics (maps : Maps) (stackId : BitVec 32) : CombinedAllocInfo :=
  (maps.combinedAllocs.lookup (statisticsKey stackId)).getD .initial

/-- The statistics of every stack are the total size and the number of its
records, within the widths of their bit-fields. -/
def Agrees (maps : Maps) : Prop :=
  ∀ stackId : BitVec 32,
    (maps.statistics stackId).totalSize.toNat =
        (maps.allocs.total fun info => if info.stackId = stackId then info.size.toNat else 0) %
          2 ^ 40 ∧
      (maps.statistics stackId).numberOfAllocs.toNat =
        (maps.allocs.total fun info => if info.stackId = stackId then 1 else 0) % 2 ^ 24

/-! ## Statistics as a balance -/

/-- What the bit-fields hold. -/
def CombinedAllocInfo.balance (info : CombinedAllocInfo) : BitVec 40 × BitVec 24 :=
  (info.totalSize, info.numberOfAllocs)

/-- What a record adds to the statistics of its stack. -/
def AllocInfo.charge (info : AllocInfo) : BitVec 40 × BitVec 24 :=
  (info.size.setWidth 40, 1)

/-- What a record adds to the statistics of a given stack. -/
def AllocInfo.chargeOn (stackId : BitVec 32) (info : AllocInfo) : BitVec 40 × BitVec 24 :=
  if info.stackId = stackId then info.charge else 0

@[simp] theorem CombinedAllocInfo.balance_initial : initial.balance = 0 := by
  decide

@[simp] theorem CombinedAllocInfo.balance_add (info : CombinedAllocInfo) (record : AllocInfo) :
    (info.add record.size).balance = info.balance + record.charge := by
  simp [balance, add, AllocInfo.charge]

@[simp] theorem CombinedAllocInfo.balance_del (info : CombinedAllocInfo) (record : AllocInfo) :
    (info.del record.size).balance = info.balance - record.charge := by
  simp [balance, del, AllocInfo.charge]

theorem AllocInfo.charge_ne_zero (info : AllocInfo) : info.charge ≠ 0 := by
  intro zero
  have number : (1 : BitVec 24) = 0 := congrArg Prod.snd zero
  exact absurd number (by decide)

@[simp] theorem AllocInfo.chargeOn_self (info : AllocInfo) :
    info.chargeOn info.stackId = info.charge := if_pos rfl

theorem AllocInfo.chargeOn_of_ne
    {info : AllocInfo}
    {stackId : BitVec 32}
    (different : info.stackId ≠ stackId) :
    info.chargeOn stackId = 0 := if_neg different

/-- What the records call for on a stack. -/
def Maps.owed (maps : Maps) (stackId : BitVec 32) : BitVec 40 × BitVec 24 :=
  maps.allocs.total (AllocInfo.chargeOn stackId)

/-- What the records call for is their total size and their number. -/
theorem Maps.owed_eq (maps : Maps) (stackId : BitVec 32) :
    maps.owed stackId =
      (BitVec.ofNat 40
          (maps.allocs.total fun info => if info.stackId = stackId then info.size.toNat else 0),
        BitVec.ofNat 24
          (maps.allocs.total fun info => if info.stackId = stackId then 1 else 0)) := by
  rw [← BitVec.natCast_eq_ofNat, ← BitVec.natCast_eq_ofNat]
  apply Prod.ext
  · calc
      (maps.owed stackId).1
          = maps.allocs.total fun info => (info.chargeOn stackId).1 :=
            BoundedMap.map_total (AddMonoidHom.fst (BitVec 40) (BitVec 24)) maps.allocs _
      _ = maps.allocs.total fun info =>
            ((if info.stackId = stackId then info.size.toNat else 0 : Nat) : BitVec 40) := by
            congr 1
            funext info
            unfold AllocInfo.chargeOn AllocInfo.charge
            split
            · simp
            · simp
      _ = _ := (BoundedMap.map_total (Nat.castAddMonoidHom (BitVec 40)) ..).symm
  · calc
      (maps.owed stackId).2
          = maps.allocs.total fun info => (info.chargeOn stackId).2 :=
            BoundedMap.map_total (AddMonoidHom.snd (BitVec 40) (BitVec 24)) maps.allocs _
      _ = maps.allocs.total fun info =>
            ((if info.stackId = stackId then 1 else 0 : Nat) : BitVec 24) := by
            congr 1
            funext info
            unfold AllocInfo.chargeOn AllocInfo.charge
            split
            · simp
            · simp
      _ = _ := (BoundedMap.map_total (Nat.castAddMonoidHom (BitVec 24)) ..).symm

/-- The maps agree when every balance is what the records call for. -/
theorem agrees_iff_balance (maps : Maps) :
    Agrees maps ↔ ∀ stackId, (maps.statistics stackId).balance = maps.owed stackId := by
  apply forall_congr'
  intro stackId
  rw [Maps.owed_eq, CombinedAllocInfo.balance, Prod.mk.injEq, ← BitVec.toNat_inj,
    ← BitVec.toNat_inj, BitVec.toNat_ofNat, BitVec.toNat_ofNat]

/-! ## What the handlers do to the balance -/

/-- A record of `allocs` can be stored under the address. -/
def Maps.Stores (maps : Maps) (ctx : Context) (address : U64) : Prop :=
  ctx.faults.allocs = false ∧ maps.allocs.HasRoom address

/-- The statistics of the stack have an entry or can be given one. -/
def Maps.Counts (maps : Maps) (ctx : Context) (stackId : BitVec 32) : Prop :=
  (maps.combinedAllocs.lookup (statisticsKey stackId)).isSome ∨
    ctx.faults.combinedAllocs = false ∧ maps.combinedAllocs.HasRoom (statisticsKey stackId)

instance (maps : Maps) (ctx : Context) (address : U64) : Decidable (maps.Stores ctx address) :=
  inferInstanceAs (Decidable (_ ∧ _))

instance (maps : Maps) (ctx : Context) (stackId : BitVec 32) :
    Decidable (maps.Counts ctx stackId) :=
  inferInstanceAs (Decidable (_ ∨ _))

/-- An update succeeds when the kernel does not refuse it and there is room. -/
theorem bpfMapUpdateElem_isSome_iff [DecidableEq κ]
    (fault : Bool)
    (map : BoundedMap κ ν limit)
    (key : κ)
    (value : ν) :
    (bpfMapUpdateElem fault map key value).isSome ↔ fault = false ∧ map.HasRoom key := by
  unfold bpfMapUpdateElem
  cases fault with
  | true => simp
  | false => simp [BoundedMap.tryInsert_isSome]

/-- The balance after a change of the entry of one stack. -/
theorem balance_of_lookup_update
    {before after : Maps}
    {record : AllocInfo}
    {entry : CombinedAllocInfo}
    (updated : after.combinedAllocs.lookup =
      Function.update before.combinedAllocs.lookup (statisticsKey record.stackId) (some entry))
    (stackId : BitVec 32) :
    (after.statistics stackId).balance =
      if record.stackId = stackId then entry.balance
      else (before.statistics stackId).balance := by
  unfold Maps.statistics
  rw [updated]
  split
  · next same =>
    subst same
    rw [Function.update_self, Option.getD_some]
  · next different =>
    have otherKey : statisticsKey stackId ≠ statisticsKey record.stackId := by
      intro same
      exact different (signExtend_inj.mp same).symm
    rw [Function.update_of_ne otherKey]

/-- `update_statistics_add` adds the record if the stack has an entry or can be
given one. -/
theorem balance_updateStatisticsAdd
    (ctx : Context)
    (record : AllocInfo)
    (maps : Maps)
    (stackId : BitVec 32) :
    ((updateStatisticsAdd ctx (statisticsKey record.stackId) record.size maps).statistics
        stackId).balance =
      (maps.statistics stackId).balance +
        if maps.Counts ctx record.stackId then record.chargeOn stackId else 0 := by
  -- the entry that the addition finds or makes is that of the statistics
  have added : ∀ after : Maps,
      after.combinedAllocs.lookup =
        Function.update maps.combinedAllocs.lookup (statisticsKey record.stackId)
          (some ((maps.statistics record.stackId).add record.size)) →
      (after.statistics stackId).balance =
        (maps.statistics stackId).balance + record.chargeOn stackId := by
    intro after updated
    rw [balance_of_lookup_update updated]
    by_cases same : record.stackId = stackId
    · subst same
      rw [if_pos rfl, CombinedAllocInfo.balance_add, AllocInfo.chargeOn_self]
    · rw [if_neg same, AllocInfo.chargeOn_of_ne same, add_zero]
  unfold updateStatisticsAdd bpfMapLookupOrTryInit
  cases found : maps.combinedAllocs.lookup (statisticsKey record.stackId) with
  | some info =>
      have counts : maps.Counts ctx record.stackId := .inl (by rw [found]; rfl)
      rw [if_pos counts]
      apply added
      simp [Maps.statistics, found]
  | none =>
      have attempt := bpfMapUpdateElem_isSome_iff ctx.faults.combinedAllocs maps.combinedAllocs
        (statisticsKey record.stackId) CombinedAllocInfo.initial
      cases updated : bpfMapUpdateElem ctx.faults.combinedAllocs maps.combinedAllocs
          (statisticsKey record.stackId) CombinedAllocInfo.initial with
      | none =>
          rw [updated] at attempt
          have lost : ¬maps.Counts ctx record.stackId := by
            rintro (present | room)
            · rw [found] at present
              cases present
            · exact absurd (attempt.mpr room) (by simp)
          rw [if_neg lost, add_zero]
          rfl
      | some combinedAllocs =>
          rw [updated] at attempt
          have counts : maps.Counts ctx record.stackId := .inr (attempt.mp rfl)
          have entries := lookup_of_bpfMapUpdateElem updated
          have present : combinedAllocs.lookup (statisticsKey record.stackId) =
              some CombinedAllocInfo.initial := by
            rw [entries, Function.update_self]
          rw [if_pos counts]
          simp only [present, Option.map_some]
          apply added
          simp [Maps.statistics, found, entries]

/-- `update_statistics_del` takes the record out of an entry. -/
theorem balance_updateStatisticsDel
    {record : AllocInfo}
    {maps : Maps}
    (present : (maps.combinedAllocs.lookup (statisticsKey record.stackId)).isSome)
    (stackId : BitVec 32) :
    ((updateStatisticsDel (statisticsKey record.stackId) record.size maps).statistics
        stackId).balance =
      (maps.statistics stackId).balance - record.chargeOn stackId := by
  obtain ⟨entry, found⟩ := Option.isSome_iff_exists.mp present
  have updated :
      (updateStatisticsDel (statisticsKey record.stackId) record.size maps).combinedAllocs.lookup =
        Function.update maps.combinedAllocs.lookup (statisticsKey record.stackId)
          (some (entry.del record.size)) := by
    simp [updateStatisticsDel, found]
  rw [balance_of_lookup_update updated]
  by_cases same : record.stackId = stackId
  · subst same
    simp [Maps.statistics, found]
  · rw [if_neg same, AllocInfo.chargeOn_of_ne same, sub_zero]

/-- What the records call for after a change of one address. -/
theorem owed_of_lookup_update
    (before after : Maps)
    {address : U64}
    {record : Option AllocInfo}
    (updated : after.allocs.lookup = Function.update before.allocs.lookup address record)
    (stackId : BitVec 32) :
    after.owed stackId =
      before.owed stackId + record.elim 0 (AllocInfo.chargeOn stackId) -
        (before.allocs.lookup address).elim 0 (AllocInfo.chargeOn stackId) :=
  eq_sub_of_add_eq (BoundedMap.total_of_lookup_update updated _)

/-- Maps that agree have statistics for the stack of every record: `allocs`
has fewer than `2 ^ 24` entries. -/
theorem Agrees.isSome
    {maps : Maps}
    (agrees : Agrees maps)
    {address : U64}
    {record : AllocInfo}
    (present : maps.allocs.lookup address = some record) :
    (maps.combinedAllocs.lookup (statisticsKey record.stackId)).isSome := by
  by_contra missing
  have absent := Option.not_isSome_iff_eq_none.mp missing
  have number := (agrees record.stackId).2
  have zero : (CombinedAllocInfo.initial.numberOfAllocs).toNat = 0 := by decide
  rw [Maps.statistics, absent, Option.getD_none, zero] at number
  have some : 1 ≤ maps.allocs.total fun info =>
      if info.stackId = record.stackId then 1 else 0 := by
    have one := BoundedMap.weight_le_total present fun info =>
      if info.stackId = record.stackId then 1 else 0
    simpa using one
  have few : (maps.allocs.total fun info =>
      if info.stackId = record.stackId then 1 else 0) ≤ 1000000 := by
    apply BoundedMap.total_le_limit
    intro info
    split
    · exact Nat.le_refl 1
    · exact Nat.zero_le 1
  rw [Nat.mod_eq_of_lt (by omega)] at number
  omega

/-- A release keeps the maps in agreement. -/
theorem Agrees.genFreeEnter
    {rodata : Rodata}
    (combined : rodata.combinedOnly)
    {maps : Maps}
    (agrees : Agrees maps)
    (address : U64) :
    Agrees (genFreeEnter rodata address maps) := by
  unfold Memleak.genFreeEnter
  cases found : maps.allocs.lookup address with
  | none => exact agrees
  | some record =>
      have present := agrees.isSome found
      rw [agrees_iff_balance] at agrees ⊢
      dsimp only
      rw [if_pos combined]
      intro stackId
      have owed := owed_of_lookup_update maps { maps with allocs := maps.allocs.erase address }
        (BoundedMap.lookup_erase ..) stackId
      rw [found, Option.elim_none, Option.elim_some, add_zero] at owed
      have unchanged : (updateStatisticsDel (statisticsKey record.stackId) record.size
          { maps with allocs := maps.allocs.erase address }).owed stackId =
            Maps.owed { maps with allocs := maps.allocs.erase address } stackId := by
        unfold updateStatisticsDel
        split <;> rfl
      calc
        _ = (maps.statistics stackId).balance - record.chargeOn stackId :=
            @balance_updateStatisticsDel record
              { maps with allocs := maps.allocs.erase address } present stackId
        _ = maps.owed stackId - record.chargeOn stackId := by rw [agrees stackId]
        _ = _ := (unchanged.trans owed).symm

/-- An entry keeps the maps in agreement. -/
theorem Agrees.genAllocEnter
    {maps : Maps}
    (agrees : Agrees maps)
    (rodata : Rodata)
    (ctx : Context)
    (size : U64) :
    Agrees (genAllocEnter rodata ctx size maps) := by
  unfold Memleak.genAllocEnter
  split
  · exact agrees
  · split
    · exact agrees
    · split
      · exact agrees
      · unfold Maps.updateSizes
        split
        · exact agrees
        · exact agrees

/-! ## Clean exits -/

/-- The call of `gen_alloc_exit2` records nothing, or it finds room in both maps
and no record under its address, or it fails in both maps. -/
def CleanExit (maps : Maps) (ctx : Context) (address : U64) : Prop :=
  ∀ sinfo, maps.sizes.lookup ctx.tid = some sinfo → Recordable address →
    (maps.Stores ctx address ∧ maps.Counts ctx sinfo.stackId ∧
        maps.allocs.lookup address = none) ∨
      (¬maps.Stores ctx address ∧ ¬maps.Counts ctx sinfo.stackId)

/-- What the records call for after an update of `allocs`. -/
theorem owed_updateAllocs
    (ctx : Context)
    (address : U64)
    (record : AllocInfo)
    (maps : Maps)
    (stackId : BitVec 32) :
    (maps.updateAllocs ctx address record).owed stackId =
      maps.owed stackId +
        if maps.Stores ctx address then
          record.chargeOn stackId -
            (maps.allocs.lookup address).elim 0 (AllocInfo.chargeOn stackId)
        else 0 := by
  have attempt := bpfMapUpdateElem_isSome_iff ctx.faults.allocs maps.allocs address record
  have lookup := updateAllocs_lookup ctx address record maps
  by_cases stores : maps.Stores ctx address
  · rw [if_pos (attempt.mpr stores)] at lookup
    rw [owed_of_lookup_update maps _ lookup, if_pos stores, Option.elim_some, add_sub_assoc]
  · have fails := Option.not_isSome_iff_eq_none.mp fun success => stores (attempt.mp success)
    rw [if_neg stores, add_zero, Maps.updateAllocs, fails]
    rfl

/-- An exit that records a block changes both sides of the balance. -/
theorem agrees_record_iff
    {maps : Maps}
    (agrees : Agrees maps)
    (ctx : Context)
    (address : U64)
    (record : AllocInfo) :
    Agrees (updateStatisticsAdd ctx (statisticsKey record.stackId) record.size
        (maps.updateAllocs ctx address record)) ↔
      ∀ stackId,
        (if maps.Counts ctx record.stackId then record.chargeOn stackId else 0) =
          if maps.Stores ctx address then
            record.chargeOn stackId -
              (maps.allocs.lookup address).elim 0 (AllocInfo.chargeOn stackId)
          else 0 := by
  have kept : (maps.updateAllocs ctx address record).combinedAllocs = maps.combinedAllocs := by
    unfold Maps.updateAllocs
    split <;> rfl
  have records : ∀ stackId,
      (updateStatisticsAdd ctx (statisticsKey record.stackId) record.size
          (maps.updateAllocs ctx address record)).owed stackId =
        (maps.updateAllocs ctx address record).owed stackId := by
    intro stackId
    rw [Maps.owed, updateStatisticsAdd_allocs]
    rfl
  rw [agrees_iff_balance] at agrees ⊢
  apply forall_congr'
  intro stackId
  rw [balance_updateStatisticsAdd, records, owed_updateAllocs, ← agrees stackId]
  simp only [Maps.statistics, Maps.Counts, kept]
  exact add_right_inj _

/-- Both sides of the balance change by the same when the record is new and
both updates succeed, or when neither does. -/
theorem sides_match_iff
    {maps : Maps}
    (agrees : Agrees maps)
    (ctx : Context)
    (address : U64)
    (record : AllocInfo) :
    (∀ stackId,
      (if maps.Counts ctx record.stackId then record.chargeOn stackId else 0) =
        if maps.Stores ctx address then
          record.chargeOn stackId -
            (maps.allocs.lookup address).elim 0 (AllocInfo.chargeOn stackId)
        else 0) ↔
      (maps.Stores ctx address ∧ maps.Counts ctx record.stackId ∧
          maps.allocs.lookup address = none) ∨
        (¬maps.Stores ctx address ∧ ¬maps.Counts ctx record.stackId) := by
  by_cases stores : maps.Stores ctx address
  · by_cases counts : maps.Counts ctx record.stackId
    · simp only [stores, counts, if_true, true_and, not_true_eq_false, and_self, or_false]
      constructor
      · intro same
        by_contra present
        obtain ⟨old, found⟩ := Option.ne_none_iff_exists'.mp present
        have unchanged := same old.stackId
        rw [found, Option.elim_some, AllocInfo.chargeOn_self] at unchanged
        exact old.charge_ne_zero (sub_eq_self.mp unchanged.symm)
      · intro free stackId
        rw [free, Option.elim_none, sub_zero]
    · simp only [stores, counts, if_true, if_false, not_true_eq_false, false_and, and_false,
        or_self, iff_false]
      -- the old record would have to be of the new one's stack, which is not counted
      intro same
      have unchanged := same record.stackId
      cases found : maps.allocs.lookup address with
      | none =>
          rw [found, Option.elim_none, sub_zero, AllocInfo.chargeOn_self] at unchanged
          exact record.charge_ne_zero unchanged.symm
      | some old =>
          by_cases sameStack : old.stackId = record.stackId
          · apply counts
            rw [← sameStack]
            exact .inl (agrees.isSome found)
          · rw [found, Option.elim_some, AllocInfo.chargeOn_of_ne sameStack, sub_zero,
              AllocInfo.chargeOn_self] at unchanged
            exact record.charge_ne_zero unchanged.symm
  · by_cases counts : maps.Counts ctx record.stackId
    · simp only [stores, counts, if_true, if_false, not_true_eq_false, false_and, and_false,
        or_self, iff_false]
      intro same
      have unchanged := same record.stackId
      rw [AllocInfo.chargeOn_self] at unchanged
      exact record.charge_ne_zero unchanged
    · refine iff_of_true (fun stackId => ?_) (.inr ⟨stores, counts⟩)
      rw [if_neg stores, if_neg counts]

/-- Maps in agreement stay in agreement exactly through clean exits. -/
theorem agrees_genAllocExit2_iff
    {rodata : Rodata}
    (combined : rodata.combinedOnly)
    {maps : Maps}
    (agrees : Agrees maps)
    (ctx : Context)
    (address : U64) :
    Agrees (genAllocExit2 rodata ctx address maps) ↔ CleanExit maps ctx address := by
  unfold genAllocExit2
  cases slot : maps.sizes.lookup ctx.tid with
  | none =>
      refine iff_of_true agrees ?_
      intro sinfo filled
      rw [slot] at filled
      cases filled
  | some sinfo =>
      by_cases recordable : Recordable address
      · have condition : address ≠ 0 ∧ address ≠ mapFailed := recordable
        have single : CleanExit maps ctx address ↔
            (maps.Stores ctx address ∧ maps.Counts ctx sinfo.stackId ∧
                maps.allocs.lookup address = none) ∨
              (¬maps.Stores ctx address ∧ ¬maps.Counts ctx sinfo.stackId) := by
          simp [CleanExit, slot, recordable]
        dsimp only
        rw [if_pos condition, if_pos combined, single]
        have emptied : Agrees { maps with sizes := maps.sizes.erase ctx.tid } := agrees
        exact (agrees_record_iff emptied ctx address (allocInfoOf sinfo ctx.ktime)).trans
          (sides_match_iff emptied ctx address (allocInfoOf sinfo ctx.ktime))
      · have condition : ¬(address ≠ 0 ∧ address ≠ mapFailed) := recordable
        dsimp only
        rw [if_neg condition]
        exact iff_of_true agrees fun _ _ valid => absurd valid recordable

/-! ## Runs -/

theorem Agrees.releaseBlock
    {rodata : Rodata}
    (combined : rodata.combinedOnly)
    {maps : Maps}
    (agrees : Agrees maps)
    (released : Option U64) :
    Agrees (releaseBlock rodata released maps) := by
  cases released with
  | none => exact agrees
  | some ptr => exact agrees.genFreeEnter combined ptr

/-- The call of `gen_alloc_exit2` that the program of a hit makes, if any, is
clean in the state that it finds. -/
def CleanHit (rodata : Rodata) (maps : Maps) : Hit → Prop
  | .uprobe event =>
      ∀ address, event.exitAddress (maps.tables.threads event.tid) = some address →
        CleanExit maps event.ctx address
  | .tracepoint ctx tracepoint =>
      ∀ size address, tracepoint.request rodata = some (size, address) →
        CleanExit
          (genAllocEnter rodata ctx size
            (releaseBlock rodata (tracepoint.released rodata) maps)) ctx address

/-- The program of a uprobe keeps the maps in agreement exactly when it is
clean. -/
theorem agrees_step_iff
    {rodata : Rodata}
    (combined : rodata.combinedOnly)
    {maps : Maps}
    (agrees : Agrees maps)
    (event : Event) :
    Agrees (step rodata maps event) ↔ CleanHit rodata maps (.uprobe event) := by
  obtain ⟨ctx, probe⟩ := event
  cases probe with
  | enter call =>
      refine iff_of_true ?_ fun address exits => by cases exits
      simp only [step, Call.enter_eq]
      split
      · exact (agrees.genFreeEnter combined _).genAllocEnter rodata ctx _
      · apply Agrees.genAllocEnter
        unfold Maps.updateMemptrs
        split
        · exact agrees
        · exact agrees
      · exact agrees.genAllocEnter rodata ctx _
  | release call =>
      refine iff_of_true ?_ fun address exits => by cases exits
      simp only [step, Release.enter_eq]
      exact agrees.genFreeEnter combined _
  | exit fn =>
      have plain : ∀ address : U64, CleanExit maps ctx address ↔
          ∀ other, some address = some other → CleanExit maps ctx other := by
        intro address
        simp only [Option.some.injEq, forall_eq']
      simp only [step, AllocFn.exit_eq, CleanHit, Event.exitAddress, Event.tid]
      split
      · unfold posixMemalignExit
        have stored : (maps.tables.threads ctx.tid).memptr = maps.memptrs.lookup ctx.tid := rfl
        rw [stored]
        cases maps.memptrs.lookup ctx.tid with
        | none => exact iff_of_true agrees fun address exits => by cases exits
        | some memptr64 =>
            dsimp only [Option.bind_some]
            have forgotten : Agrees { maps with memptrs := maps.memptrs.erase ctx.tid } := agrees
            cases ctx.readUser memptr64 with
            | none => exact iff_of_true forgotten fun address exits => by cases exits
            | some addr64 =>
                rw [← plain addr64]
                exact agrees_genAllocExit2_iff combined forgotten ctx addr64
      · rw [← plain ctx.rc]
        exact agrees_genAllocExit2_iff combined agrees ctx ctx.rc

/-- A program keeps the maps in agreement exactly when it is clean. -/
theorem agrees_hitStep_iff
    {rodata : Rodata}
    (combined : rodata.combinedOnly)
    {maps : Maps}
    (agrees : Agrees maps)
    (hit : Hit) :
    Agrees (hitStep rodata maps hit) ↔ CleanHit rodata maps hit := by
  cases hit with
  | uprobe event => exact agrees_step_iff combined agrees event
  | tracepoint ctx tracepoint =>
      have released := agrees.releaseBlock combined (tracepoint.released rodata)
      simp only [hitStep, Tracepoint.program_eq, CleanHit]
      cases tracepoint.request rodata with
      | none => exact iff_of_true released fun size address records => by cases records
      | some request =>
          obtain ⟨size, address⟩ := request
          refine (agrees_genAllocExit2_iff combined (released.genAllocEnter rodata ctx size) ctx
            address).trans ?_
          simp only [Option.some.injEq, Prod.mk.injEq]
          constructor
          · rintro clean _ _ ⟨rfl, rfl⟩
            exact clean
          · intro clean
            exact clean size address ⟨rfl, rfl⟩

theorem Agrees.empty : Agrees Maps.empty := by
  rw [agrees_iff_balance]
  intro stackId
  simp [Maps.statistics, Maps.owed, Maps.empty]

/-- The combined statistics agree with the records at every point of a run
exactly when every recording exit of the run is clean. -/
theorem statistics_agree_iff
    (rodata : Rodata)
    (combined : rodata.combinedOnly = true)
    (hits : List Hit) :
    (∀ count, Agrees (runHits rodata (hits.take count))) ↔
      Along (hitStep rodata) (CleanHit rodata) Maps.empty hits :=
  Along.iff_invariant Agrees
    (fun _ hit agrees => agrees_hitStep_iff combined agrees hit) Agrees.empty hits

/-- A block is allocated. -/
def oneBlockHits : List Hit :=
  [.uprobe ⟨.quiet 1 0, .enter (.malloc 16)⟩, .uprobe ⟨.quiet 1 4096, .exit .malloc⟩]

theorem statistics_agree_iff_one_block :
    (runHits combinedSettings oneBlockHits).combinedAllocs.lookup 0 ≠ none ∧
      ∀ count, Agrees (runHits combinedSettings (oneBlockHits.take count)) := by
  refine ⟨by decide,
    (statistics_agree_iff combinedSettings rfl oneBlockHits).mpr ⟨?_, ?_, trivial⟩⟩
  · intro address exits
    cases exits
  · intro address exits sinfo filled recordable
    obtain rfl : 4096 = address := Option.some.inj exits
    exact .inl ⟨by decide, by rw [← Option.some.inj filled]; decide, by decide⟩

/-- A second block is allocated by a call with another stack. -/
def twoStackHits : List Hit :=
  oneBlockHits ++
    [ .uprobe ⟨{ Context.quiet 1 0 with stackId := 2 }, .enter (.malloc 16)⟩,
      .uprobe ⟨.quiet 1 8192, .exit .malloc⟩ ]

/-- The one entry of `combined_allocs` is taken by the first stack. -/
theorem twoStackHits_not_agrees : ¬Agrees (runHits combinedSettings twoStackHits) := by
  intro agrees
  exact absurd (agrees 2).2 (by decide)

end Memleak
end EbpfHub
