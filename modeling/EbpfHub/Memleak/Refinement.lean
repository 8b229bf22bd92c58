import EbpfHub.Memleak.Tables

/-!
# The programs refine the two-effect description of events

Each program changes the content of the maps as the abstract step does, for
some outcome of its updates.  When the number of failed updates has not grown,
that outcome is success.
-/

namespace EbpfHub
namespace Memleak

open Foundations

/-- The failed updates that an attempt adds. -/
def missed (succeeded : Bool) : Nat := if succeeded then 0 else 1

@[simp] theorem missed_true : missed true = 0 := rfl

@[simp] theorem missed_false : missed false = 1 := rfl

theorem missed_eq_zero_iff (succeeded : Bool) : missed succeeded = 0 ↔ succeeded = true := by
  cases succeeded <;> simp

theorem lookup_of_bpfMapUpdateElem [DecidableEq κ]
    {fault : Bool}
    {map updated : BoundedMap κ ν limit}
    {key : κ}
    {value : ν}
    (success : bpfMapUpdateElem fault map key value = some updated) :
    updated.lookup = Function.update map.lookup key (some value) := by
  unfold bpfMapUpdateElem at success
  split at success
  · cases success
  · exact BoundedMap.lookup_of_tryInsert success

namespace Maps

/-- The update of `sizes` fills the slot of the thread or fails. -/
theorem tables_updateSizes
    (ctx : Context)
    (sinfo : SizeInfo)
    (maps : Maps) :
    ∃ succeeded : Bool,
      (maps.updateSizes ctx sinfo).tables =
        maps.tables.setThread ctx.tid
          { maps.tables.threads ctx.tid with
            slot := if succeeded then some sinfo else (maps.tables.threads ctx.tid).slot } ∧
      (maps.updateSizes ctx sinfo).failedUpdates =
        maps.failedUpdates + missed succeeded := by
  unfold updateSizes
  split
  · refine ⟨false, ?_, rfl⟩
    exact (Tables.setThread_self maps.tables ctx.tid).symm
  · next sizes success =>
    refine ⟨true, ?_, rfl⟩
    ext tid : 2
    · simp only [tables, Tables.setThread, lookup_of_bpfMapUpdateElem success]
      by_cases same : tid = ctx.tid
      · subst same
        simp
      · simp [same]
    · rfl
    · rfl

/-- The update of `memptrs` records the result pointer or fails. -/
theorem tables_updateMemptrs
    (ctx : Context)
    (memptr64 : U64)
    (maps : Maps) :
    ∃ succeeded : Bool,
      (maps.updateMemptrs ctx memptr64).tables =
        maps.tables.setThread ctx.tid
          { maps.tables.threads ctx.tid with
            memptr :=
              if succeeded then some memptr64 else (maps.tables.threads ctx.tid).memptr } ∧
      (maps.updateMemptrs ctx memptr64).failedUpdates =
        maps.failedUpdates + missed succeeded := by
  unfold updateMemptrs
  split
  · refine ⟨false, ?_, rfl⟩
    exact (Tables.setThread_self maps.tables ctx.tid).symm
  · next memptrs success =>
    refine ⟨true, ?_, rfl⟩
    ext tid : 2
    · simp only [tables, Tables.setThread, lookup_of_bpfMapUpdateElem success]
      by_cases same : tid = ctx.tid
      · subst same
        simp
      · simp [same]
    · rfl
    · rfl

/-- The update of `allocs` records the address or fails. -/
theorem tables_updateAllocs
    (ctx : Context)
    (address : U64)
    (info : AllocInfo)
    (maps : Maps) :
    ∃ succeeded : Bool,
      (maps.updateAllocs ctx address info).tables =
        { maps.tables with
          allocs :=
            if succeeded then Function.update maps.tables.allocs address (some info)
            else maps.tables.allocs } ∧
      (maps.updateAllocs ctx address info).failedUpdates =
        maps.failedUpdates + missed succeeded := by
  unfold updateAllocs
  split
  · exact ⟨false, rfl, rfl⟩
  · next allocs success =>
    refine ⟨true, ?_, rfl⟩
    ext : 1
    · rfl
    · exact lookup_of_bpfMapUpdateElem success
    · rfl

end Maps

/-- `update_statistics_del` takes the record out of its stack's statistics. -/
theorem tables_updateStatisticsDel (stackId sz : U64) (maps : Maps) :
    (updateStatisticsDel stackId sz maps).tables =
      { maps.tables with
        combinedAllocs := Tables.delStatistics maps.tables.combinedAllocs stackId sz } ∧
    (updateStatisticsDel stackId sz maps).failedUpdates = maps.failedUpdates := by
  unfold updateStatisticsDel
  split
  · next absent =>
    refine ⟨?_, rfl⟩
    have unchanged : Tables.delStatistics maps.tables.combinedAllocs stackId sz =
        maps.tables.combinedAllocs := by
      apply Function.update_eq_self_iff.mpr
      simp [Maps.tables, absent]
    rw [unchanged]
  · refine ⟨?_, rfl⟩
    ext : 1
    · rfl
    · rfl
    · exact BoundedMap.lookup_modify _ _ _

/-- `update_statistics_add` counts the record among its stack's or fails. -/
theorem tables_updateStatisticsAdd
    (ctx : Context)
    (stackId sz : U64)
    (maps : Maps)
    (outcome : Outcome) :
    ∃ succeeded : Bool,
      (updateStatisticsAdd ctx stackId sz maps).tables =
        { maps.tables with
          combinedAllocs :=
            Tables.addStatistics { outcome with combinedAllocs := succeeded }
              maps.tables.combinedAllocs stackId sz } ∧
      (updateStatisticsAdd ctx stackId sz maps).failedUpdates =
        maps.failedUpdates + missed succeeded := by
  unfold updateStatisticsAdd bpfMapLookupOrTryInit Tables.addStatistics
  cases found : maps.combinedAllocs.lookup stackId with
  | some info =>
      refine ⟨true, ?_, rfl⟩
      ext : 1
      · rfl
      · rfl
      · simp [Maps.tables, found]
  | none =>
      cases updated : bpfMapUpdateElem ctx.faults.combinedAllocs maps.combinedAllocs stackId
          CombinedAllocInfo.initial with
      | none =>
          refine ⟨false, ?_, rfl⟩
          ext : 1
          · rfl
          · rfl
          · simp [Maps.tables, found]
      | some combinedAllocs =>
          have entries := lookup_of_bpfMapUpdateElem updated
          have present : combinedAllocs.lookup stackId = some CombinedAllocInfo.initial := by
            rw [entries, Function.update_self]
          refine ⟨true, ?_, by simp [present]⟩
          ext : 1
          · simp [Maps.tables, present]
          · simp [Maps.tables, present]
          · simp [Maps.tables, found, present, entries]

/-- `gen_free_enter` carries out a release. -/
theorem tables_genFreeEnter
    (rodata : Rodata)
    (outcome : Outcome)
    (address : U64)
    (maps : Maps) :
    (genFreeEnter rodata address maps).tables =
      maps.tables.apply rodata outcome (.release address) ∧
    (genFreeEnter rodata address maps).failedUpdates = maps.failedUpdates := by
  unfold genFreeEnter Tables.apply
  cases found : maps.allocs.lookup address with
  | none => simp [Maps.tables, found]
  | some info =>
      by_cases combined : rodata.combinedOnly
      · obtain ⟨content, failed⟩ := tables_updateStatisticsDel (statisticsKey info.stackId)
          info.size { maps with allocs := maps.allocs.erase address }
        simp only [combined, if_true]
        refine ⟨?_, failed⟩
        rw [content]
        simp [Maps.tables, found]
      · simp [Maps.tables, found, combined]

/-- `gen_alloc_enter` fills an empty slot or fails. -/
theorem tables_genAllocEnter
    (rodata : Rodata)
    (ctx : Context)
    (size : U64)
    (maps : Maps) :
    ∃ succeeded : Bool,
      (genAllocEnter rodata ctx size maps).tables =
        maps.tables.setThread ctx.tid
          { maps.tables.threads ctx.tid with
            slot := (maps.tables.threads ctx.tid).slot.or
              (if succeeded then captureOf rodata ctx size else none) } ∧
      (genAllocEnter rodata ctx size maps).failedUpdates =
        maps.failedUpdates + missed succeeded := by
  have kept : maps.tables =
      maps.tables.setThread ctx.tid
        { maps.tables.threads ctx.tid with
          slot := (maps.tables.threads ctx.tid).slot.or none } := by
    rw [Option.or_none]
    exact (Tables.setThread_self maps.tables ctx.tid).symm
  unfold genAllocEnter
  by_cases filtered : size < rodata.minSize ∨ size > rodata.maxSize
  · have rejected : captureOf rodata ctx size = none := by
      simp [captureOf, Rodata.Accepts, filtered]
    rw [if_pos filtered, rejected]
    exact ⟨true, kept, rfl⟩
  · by_cases sampled : rodata.sampleRate > 1 ∧ ctx.ktime % rodata.sampleRate ≠ 0
    · have rejected : captureOf rodata ctx size = none := by
        rw [captureOf, if_neg]
        rintro ⟨_, taken⟩
        exact taken sampled
      rw [if_neg filtered, if_pos sampled, rejected]
      exact ⟨true, kept, rfl⟩
    · have accepted : captureOf rodata ctx size =
          some (captureSizeInfo size ctx.stackId ctx.sp ctx.readUser) :=
        if_pos ⟨filtered, sampled⟩
      rw [if_neg filtered, if_neg sampled]
      cases found : maps.sizes.lookup ctx.tid with
      | some sinfo =>
          have slot : (maps.tables.threads ctx.tid).slot = some sinfo := found
          have filled : (maps.tables.threads ctx.tid).slot.or
              (if true then captureOf rodata ctx size else none) =
                (maps.tables.threads ctx.tid).slot := by
            rw [slot, Option.some_or]
          refine ⟨true, ?_, rfl⟩
          rw [filled]
          exact (Tables.setThread_self maps.tables ctx.tid).symm
      | none =>
          have slot : (maps.tables.threads ctx.tid).slot = none := found
          obtain ⟨succeeded, content, failed⟩ := maps.tables_updateSizes ctx
            (captureSizeInfo size ctx.stackId ctx.sp ctx.readUser)
          refine ⟨succeeded, ?_, failed⟩
          rw [slot] at content
          rw [slot, Option.none_or, accepted]
          exact content

/-- `gen_alloc_exit2` empties the slot and records it, or fails to. -/
theorem tables_genAllocExit2
    (rodata : Rodata)
    (ctx : Context)
    (address : U64)
    (maps : Maps) :
    ∃ recorded counted : Bool,
      (genAllocExit2 rodata ctx address maps).tables =
        (maps.tables.apply rodata ⟨true, recorded, counted, true⟩
          (exitAction ctx address (maps.tables.threads ctx.tid).slot)).setThread ctx.tid
            { maps.tables.threads ctx.tid with slot := none } ∧
      (genAllocExit2 rodata ctx address maps).failedUpdates =
        maps.failedUpdates + missed recorded + missed counted := by
  unfold genAllocExit2 exitAction
  cases found : maps.sizes.lookup ctx.tid with
  | none =>
      have slot : (maps.tables.threads ctx.tid).slot = none := found
      refine ⟨true, true, ?_, rfl⟩
      simp only [slot, Tables.apply_keep]
      rw [← slot]
      exact (Tables.setThread_self maps.tables ctx.tid).symm
  | some sinfo =>
      have slot : (maps.tables.threads ctx.tid).slot = some sinfo := found
      have erased : Maps.tables { maps with sizes := maps.sizes.erase ctx.tid } =
          maps.tables.setThread ctx.tid
            { maps.tables.threads ctx.tid with slot := none } := by
        ext tid : 2
        · by_cases same : tid = ctx.tid
          · subst same
            simp [Maps.tables, Tables.setThread]
          · simp [Maps.tables, Tables.setThread, same]
        · rfl
        · rfl
      by_cases recordable : Recordable address
      · obtain ⟨recorded, content, failed⟩ := Maps.tables_updateAllocs ctx address
          (allocInfoOf sinfo ctx.ktime) { maps with sizes := maps.sizes.erase ctx.tid }
        have condition : address ≠ 0 ∧ address ≠ mapFailed := recordable
        simp only [slot, if_pos recordable, if_pos condition]
        rw [erased] at content
        by_cases combined : rodata.combinedOnly
        · obtain ⟨counted, statistics, alsoFailed⟩ := tables_updateStatisticsAdd ctx
            (statisticsKey (allocInfoOf sinfo ctx.ktime).stackId)
            (allocInfoOf sinfo ctx.ktime).size
            (Maps.updateAllocs ctx address (allocInfoOf sinfo ctx.ktime)
              { maps with sizes := maps.sizes.erase ctx.tid }) ⟨true, recorded, true, true⟩
          simp only [if_pos combined]
          refine ⟨recorded, counted, ?_, by rw [alsoFailed, failed]⟩
          rw [statistics, content]
          simp [Tables.apply, Tables.setThread, combined]
        · simp only [if_neg combined]
          refine ⟨recorded, true, ?_, by rw [failed]; rfl⟩
          rw [content]
          simp [Tables.apply, Tables.setThread, combined]
      · have condition : ¬(address ≠ 0 ∧ address ≠ mapFailed) := recordable
        simp only [slot, if_neg recordable, if_neg condition, Tables.apply_keep]
        exact ⟨true, true, erased, rfl⟩

/-- A program step and the abstract step it refines: the content agrees for
some outcome of the updates, and the outcome is success if no update failed. -/
def Refines (rodata : Rodata) (maps after : Maps) (event : Event) : Prop :=
  ∃ outcome : Outcome,
    after.tables = maps.tables.step rodata outcome event ∧
    maps.failedUpdates ≤ after.failedUpdates ∧
    (after.failedUpdates = maps.failedUpdates → outcome = .success)

private theorem enter_refines
    (rodata : Rodata)
    (ctx : Context)
    (call : Call)
    (maps : Maps) :
    Refines rodata maps (call.enter rodata ctx maps) ⟨ctx, .enter call⟩ := by
  rw [Call.enter_eq]
  cases released : call.released with
  | some ptr =>
      have plain : call.memptr = none := by
        cases call <;> simp_all [Call.released, Call.memptr]
      obtain ⟨succeeded, content, failed⟩ :=
        tables_genAllocEnter rodata ctx call.size (genFreeEnter rodata ptr maps)
      obtain ⟨released_content, released_failed⟩ :=
        tables_genFreeEnter rodata ⟨succeeded, true, true, true⟩ ptr maps
      refine ⟨⟨succeeded, true, true, true⟩, ?_, by simp only [failed, released_failed]; omega, ?_⟩
      · simp only [content, released_content, Tables.apply_threads, Tables.step, Event.action,
          Event.released, Event.next, Event.tid, released, plain, Option.none_or, if_true]
      · intro unchanged
        have taken : missed succeeded = 0 := by
          simp only [failed, released_failed] at unchanged
          omega
        rw [(missed_eq_zero_iff succeeded).mp taken]
        rfl
  | none =>
      have kept : Event.action ⟨ctx, .enter call⟩ (maps.tables.threads ctx.tid) = .keep := by
        simp [Event.action, Event.released, Event.exitAddress, released]
      cases result : call.memptr with
      | some memptr =>
          obtain ⟨stored, memptr_content, memptr_failed⟩ := maps.tables_updateMemptrs ctx memptr
          obtain ⟨succeeded, content, failed⟩ :=
            tables_genAllocEnter rodata ctx call.size (maps.updateMemptrs ctx memptr)
          refine ⟨⟨succeeded, true, true, stored⟩, ?_,
            by simp only [failed, memptr_failed]; omega, ?_⟩
          · simp only [content, memptr_content, Tables.step, Event.tid, kept, Tables.apply_keep,
              Tables.setThread_threads, Function.update_self, Tables.setThread_setThread,
              Event.next, result, Option.some_or]
          · intro unchanged
            have taken : missed succeeded = 0 ∧ missed stored = 0 := by
              simp only [failed, memptr_failed] at unchanged
              omega
            rw [(missed_eq_zero_iff succeeded).mp taken.1, (missed_eq_zero_iff stored).mp taken.2]
            rfl
      | none =>
          obtain ⟨succeeded, content, failed⟩ :=
            tables_genAllocEnter rodata ctx call.size maps
          refine ⟨⟨succeeded, true, true, true⟩, ?_, by simp only [failed]; omega, ?_⟩
          · simp only [content, Tables.step, Event.tid, kept, Tables.apply_keep, Event.next,
              result, Option.none_or, if_true]
          · intro unchanged
            have taken : missed succeeded = 0 := by
              simp only [failed] at unchanged
              omega
            rw [(missed_eq_zero_iff succeeded).mp taken]
            rfl

private theorem exit2_refines
    {rodata : Rodata}
    {event : Event}
    {address : U64}
    {maps start : Maps}
    (exits : event.exitAddress (maps.tables.threads event.tid) = some address)
    (content : start.tables =
      maps.tables.setThread event.tid
        { slot := (maps.tables.threads event.tid).slot
          memptr := (event.next rodata .success (maps.tables.threads event.tid)).memptr })
    (failed : start.failedUpdates = maps.failedUpdates) :
    Refines rodata maps (genAllocExit2 rodata event.ctx address start) event := by
  obtain ⟨recorded, counted, exit_content, exit_failed⟩ :=
    tables_genAllocExit2 rodata event.ctx address start
  have action := Event.action_of_exitAddress exits
  have after : ∀ outcome, event.next rodata outcome (maps.tables.threads event.tid) =
      { slot := none
        memptr := (event.next rodata .success (maps.tables.threads event.tid)).memptr } := by
    intro outcome
    unfold Event.exitAddress at exits
    unfold Event.next
    split at exits <;> simp_all [Event.exitAddress]
  refine ⟨⟨true, recorded, counted, true⟩, ?_, by rw [exit_failed, failed]; omega, ?_⟩
  · rw [exit_content, content, Tables.step, action, after ⟨true, recorded, counted, true⟩]
    simp [Event.tid]
  · intro unchanged
    have taken : missed recorded = 0 ∧ missed counted = 0 := by
      rw [exit_failed, failed] at unchanged
      omega
    rw [(missed_eq_zero_iff recorded).mp taken.1, (missed_eq_zero_iff counted).mp taken.2]
    rfl

private theorem exit_refines
    (rodata : Rodata)
    (ctx : Context)
    (fn : AllocFn)
    (maps : Maps) :
    Refines rodata maps (fn.exit rodata ctx maps) ⟨ctx, .exit fn⟩ := by
  rw [AllocFn.exit_eq]
  by_cases memalign : fn = .posixMemalign
  · subst memalign
    simp only [if_true, posixMemalignExit]
    have unreleased : Event.released ⟨ctx, .exit .posixMemalign⟩ = none := rfl
    cases recorded : maps.memptrs.lookup ctx.tid with
    | none =>
        have memptr : (maps.tables.threads ctx.tid).memptr = none := recorded
        have noExit : Event.exitAddress ⟨ctx, .exit .posixMemalign⟩
            (maps.tables.threads ctx.tid) = none := by
          simp [Event.exitAddress, memptr]
        refine ⟨.success, ?_, le_refl _, fun _ => rfl⟩
        have same : Event.next rodata ⟨ctx, .exit .posixMemalign⟩ .success
            (maps.tables.threads ctx.tid) = maps.tables.threads ctx.tid := by
          simp only [Event.next, noExit, Option.isSome_none, Bool.false_eq_true, if_false, if_true]
          rw [← memptr]
        rw [Tables.step, Event.tid, Event.action_of_no_exitAddress unreleased noExit, same,
          Tables.apply_keep, Tables.setThread_self]
    | some memptr64 =>
        have memptr : (maps.tables.threads ctx.tid).memptr = some memptr64 := recorded
        have erased : Maps.tables { maps with memptrs := maps.memptrs.erase ctx.tid } =
            maps.tables.setThread ctx.tid
              { maps.tables.threads ctx.tid with memptr := none } := by
          ext tid : 2
          · by_cases same : tid = ctx.tid
            · subst same
              simp [Maps.tables, Tables.setThread]
            · simp [Maps.tables, Tables.setThread, same]
          · rfl
          · rfl
        dsimp only
        cases read : ctx.readUser memptr64 with
        | none =>
            have noExit : Event.exitAddress ⟨ctx, .exit .posixMemalign⟩
                (maps.tables.threads ctx.tid) = none := by
              simp [Event.exitAddress, memptr, read]
            refine ⟨.success, ?_, le_refl _, fun _ => rfl⟩
            rw [Tables.step, Event.tid, Event.action_of_no_exitAddress unreleased noExit,
              Tables.apply_keep]
            simp [Event.next, noExit, erased]
        | some addr64 =>
            dsimp only
            have exits : Event.exitAddress ⟨ctx, .exit .posixMemalign⟩
                (maps.tables.threads ctx.tid) = some addr64 := by
              simp [Event.exitAddress, memptr, read]
            have content : Maps.tables { maps with memptrs := maps.memptrs.erase ctx.tid } =
                maps.tables.setThread (Event.tid ⟨ctx, .exit .posixMemalign⟩)
                  { slot := (maps.tables.threads ctx.tid).slot
                    memptr := (Event.next rodata ⟨ctx, .exit .posixMemalign⟩ .success
                      (maps.tables.threads ctx.tid)).memptr } := by
              simpa only [Event.next, Event.tid, if_true] using erased
            exact @exit2_refines rodata ⟨ctx, .exit .posixMemalign⟩ addr64 maps _ exits content rfl
  · rw [if_neg memalign]
    have exits : Event.exitAddress ⟨ctx, .exit fn⟩ (maps.tables.threads ctx.tid) =
        some ctx.rc := by
      simp [Event.exitAddress, memalign]
    have content : maps.tables =
        maps.tables.setThread (Event.tid ⟨ctx, .exit fn⟩)
          { slot := (maps.tables.threads ctx.tid).slot
            memptr := (Event.next rodata ⟨ctx, .exit fn⟩ .success
              (maps.tables.threads ctx.tid)).memptr } := by
      simp only [Event.next, if_neg memalign]
      exact (Tables.setThread_self maps.tables ctx.tid).symm
    exact @exit2_refines rodata ⟨ctx, .exit fn⟩ ctx.rc maps maps exits content rfl

/-- Every step of the programs refines an abstract step. -/
theorem step_refines (rodata : Rodata) (maps : Maps) (event : Event) :
    Refines rodata maps (step rodata maps event) event := by
  obtain ⟨ctx, probe⟩ := event
  cases probe with
  | enter call => exact enter_refines rodata ctx call maps
  | exit fn => exact exit_refines rodata ctx fn maps
  | release call =>
      have content := tables_genFreeEnter rodata .success call.address maps
      refine ⟨.success, ?_, ?_, fun _ => rfl⟩
      · simp only [step, Release.enter_eq, content.1, Tables.step, Event.action, Event.released,
          Event.next, Event.tid, Tables.apply_setThread_self]
      · simp only [step, Release.enter_eq, content.2]
        exact le_refl _

/-- Handling an event of one thread leaves what another has on record. -/
theorem threads_step_of_ne
    (rodata : Rodata)
    (maps : Maps)
    {event : Event}
    {tid : U32}
    (different : tid ≠ event.tid) :
    (step rodata maps event).tables.threads tid = maps.tables.threads tid := by
  obtain ⟨outcome, content, _⟩ := step_refines rodata maps event
  rw [content]
  exact Tables.step_threads_of_ne rodata outcome maps.tables event different

/-- No step takes back a failed update. -/
theorem failedUpdates_step (rodata : Rodata) (maps : Maps) (event : Event) :
    maps.failedUpdates ≤ (step rodata maps event).failedUpdates := by
  obtain ⟨_, _, grows, _⟩ := step_refines rodata maps event
  exact grows

/-- While no update has failed, a step is the abstract step with success. -/
theorem tables_step_of_noFailure
    {rodata : Rodata}
    {maps : Maps}
    {event : Event}
    (noFailure : (step rodata maps event).failedUpdates = 0) :
    (step rodata maps event).tables = maps.tables.step rodata .success event := by
  obtain ⟨outcome, content, grows, success⟩ := step_refines rodata maps event
  rw [content, success (by omega)]

/-- If no update has failed in a run, none has in its first step. -/
theorem noFailure_first
    {rodata : Rodata}
    {maps : Maps}
    {event : Event}
    {events : List Event}
    (noFailure : (run (step rodata) maps (event :: events)).failedUpdates = 0) :
    (step rodata maps event).failedUpdates = 0 := by
  have grows := run_monotone (failedUpdates_step rodata) (step rodata maps event) events
  rw [run_cons] at noFailure
  omega

/-- If no update has failed in a run, none has in any part of it. -/
theorem noFailure_front
    {rodata : Rodata}
    {maps : Maps}
    {first second : List Event}
    (noFailure : (run (step rodata) maps (first ++ second)).failedUpdates = 0) :
    (run (step rodata) maps first).failedUpdates = 0 := by
  have grows := run_monotone (failedUpdates_step rodata) (run (step rodata) maps first) second
  rw [run_append] at noFailure
  omega

/-- A run without failed updates is the run of the abstract machine. -/
theorem tables_run_of_noFailure
    {rodata : Rodata}
    {maps : Maps}
    {events : List Event}
    (noFailure : (run (step rodata) maps events).failedUpdates = 0) :
    (run (step rodata) maps events).tables =
      run (Tables.step rodata .success) maps.tables events := by
  induction events generalizing maps with
  | nil => rfl
  | cons event events inductionHypothesis =>
      rw [run_cons, run_cons, inductionHypothesis noFailure,
        tables_step_of_noFailure (noFailure_first noFailure)]

end Memleak
end EbpfHub
