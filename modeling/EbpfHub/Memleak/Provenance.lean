import EbpfHub.Memleak.Refinement

/-!
# Where a record comes from

Every insertion into `allocs` carries the data of one earlier entry on its own
thread, and no entry serves for two insertions.  This holds of every sequence of
events, whatever is lost, filtered or refused.
-/

namespace EbpfHub
namespace Memleak

open Foundations

/-- The maps before the event at the index of a list. -/
def mapsBefore (rodata : Rodata) (events : List Event) (index : Nat) : Maps :=
  runEvents rodata (events.take index)

/-- What the event inserts into `allocs`, if anything. -/
def insertion (maps : Maps) (event : Event) : Option (U64 × AllocInfo) :=
  match event.exitAddress (maps.tables.threads event.tid), maps.sizes.lookup event.tid with
  | some address, some sinfo =>
      if Recordable address ∧
          (bpfMapUpdateElem event.ctx.faults.allocs maps.allocs address
            (allocInfoOf sinfo event.ctx.ktime)).isSome then
        some (address, allocInfoOf sinfo event.ctx.ktime)
      else none
  | _, _ => none

/-- The event empties the slot of its thread without inserting anything. -/
def Discards (maps : Maps) (event : Event) : Prop :=
  (event.exitAddress (maps.tables.threads event.tid)).isSome ∧
    (maps.sizes.lookup event.tid).isSome ∧ insertion maps event = none

/-- An insertion copies the slot that it empties. -/
theorem of_insertion
    {maps : Maps}
    {event : Event}
    {address : U64}
    {info : AllocInfo}
    (inserted : insertion maps event = some (address, info)) :
    ∃ sinfo, event.exitAddress (maps.tables.threads event.tid) = some address ∧
      maps.sizes.lookup event.tid = some sinfo ∧ Recordable address ∧
      info = allocInfoOf sinfo event.ctx.ktime := by
  unfold insertion at inserted
  split at inserted
  · next returned sinfo exits slot =>
    split at inserted
    · next accepted =>
      cases inserted
      exact ⟨sinfo, exits, slot, accepted.1, rfl⟩
    · cases inserted
  · cases inserted

/-- What a slot holds after an event was captured by that event, or was there
before and the event was no exit of the thread. -/
theorem slot_step
    {rodata : Rodata}
    {maps : Maps}
    {event : Event}
    {tid : U32}
    {sinfo : SizeInfo}
    (after : ((step rodata maps event).tables.threads tid).slot = some sinfo) :
    (event.tid = tid ∧ event.captured rodata = some sinfo) ∨
      (maps.tables.threads tid).slot = some sinfo ∧
        ¬(event.tid = tid ∧ (event.exitAddress (maps.tables.threads tid)).isSome) := by
  obtain ⟨outcome, content, _⟩ := step_refines rodata maps event
  rw [content] at after
  by_cases mine : event.tid = tid
  · subst mine
    rw [Tables.step_threads, Function.update_self] at after
    unfold Event.next at after
    cases probe : event.probe with
    | enter call =>
        have noExit : event.exitAddress (maps.tables.threads event.tid) = none := by
          simp [Event.exitAddress, probe]
        rw [probe] at after
        rcases Option.or_eq_some_iff.mp after with before | ⟨_, captured⟩
        · exact .inr ⟨before, by simp [noExit]⟩
        · split at captured
          · exact .inl ⟨rfl, by simpa [Event.captured, probe] using captured⟩
          · cases captured
    | exit fn =>
        rw [probe] at after
        dsimp only at after
        split at after
        · cases after
        · next noExit => exact .inr ⟨after, fun reaches => noExit reaches.2⟩
    | release call =>
        have noExit : event.exitAddress (maps.tables.threads event.tid) = none := by
          simp [Event.exitAddress, probe]
        rw [probe] at after
        exact .inr ⟨after, by simp [noExit]⟩
  · rw [Tables.step_threads_of_ne _ _ _ _ (Ne.symm mine)] at after
    exact .inr ⟨after, fun reaches => mine reaches.1⟩

/-! ## Insertions are what adds records -/

/-- What the maps hold after an insertion, if any. -/
def inserted
    (allocs : U64 → Option AllocInfo) : Option (U64 × AllocInfo) → U64 → Option AllocInfo
  | none => allocs
  | some (address, info) => Function.update allocs address (some info)

theorem updateStatisticsAdd_allocs
    (ctx : Context)
    (stackId sz : U64)
    (maps : Maps) :
    (updateStatisticsAdd ctx stackId sz maps).allocs = maps.allocs := by
  unfold updateStatisticsAdd
  split
  · rfl
  · rfl

theorem genAllocEnter_memptrs
    (rodata : Rodata)
    (ctx : Context)
    (size : U64)
    (maps : Maps) :
    (genAllocEnter rodata ctx size maps).memptrs = maps.memptrs := by
  unfold genAllocEnter
  split
  · rfl
  · split
    · rfl
    · split
      · rfl
      · unfold Maps.updateSizes
        split <;> rfl

/-- A present key can be overwritten unless the kernel refuses. -/
theorem bpfMapUpdateElem_isSome_of_present [DecidableEq κ]
    {map : BoundedMap κ ν limit}
    {key : κ}
    (present : map.lookup key ≠ none)
    (value : ν) :
    (bpfMapUpdateElem false map key value).isSome := by
  have room : map.HasRoom key := by
    apply BoundedMap.hasRoom_of_mem
    rw [BoundedMap.mem_keys_iff]
    exact Option.ne_none_iff_exists'.mp present
  have inserts := map.tryInsert_isSome key value
  rw [decide_eq_true room] at inserts
  exact inserts

/-- `posix_memalign` replaces a result pointer that is on record. -/
theorem step_enter_memptrs_of_present
    {rodata : Rodata}
    {maps : Maps}
    {ctx : Context}
    {call : Call}
    {memptr : U64}
    (result : call.memptr = some memptr)
    (present : maps.memptrs.lookup ctx.tid ≠ none)
    (accepted : ctx.faults.memptrs = false) :
    (step rodata maps ⟨ctx, .enter call⟩).memptrs.lookup ctx.tid = some memptr := by
  have plain : call.released = none := by
    cases call <;> simp_all [Call.released, Call.memptr]
  simp only [step, Call.enter_eq, plain, result]
  rw [genAllocEnter_memptrs]
  unfold Maps.updateMemptrs
  have succeeds := bpfMapUpdateElem_isSome_of_present present memptr
  rw [accepted]
  cases updated : bpfMapUpdateElem false maps.memptrs ctx.tid memptr with
  | none =>
      rw [updated] at succeeds
      cases succeeds
  | some memptrs =>
      dsimp only
      rw [lookup_of_bpfMapUpdateElem updated, Function.update_self]

theorem updateAllocs_lookup
    (ctx : Context)
    (address : U64)
    (info : AllocInfo)
    (maps : Maps) :
    (maps.updateAllocs ctx address info).allocs.lookup =
      if (bpfMapUpdateElem ctx.faults.allocs maps.allocs address info).isSome then
        Function.update maps.allocs.lookup address (some info)
      else maps.allocs.lookup := by
  unfold Maps.updateAllocs
  cases updated : bpfMapUpdateElem ctx.faults.allocs maps.allocs address info with
  | none => rfl
  | some allocs => exact lookup_of_bpfMapUpdateElem updated

/-- The allocations after `gen_alloc_exit2`. -/
theorem genAllocExit2_allocs
    (rodata : Rodata)
    (ctx : Context)
    (address : U64)
    (maps : Maps) :
    (genAllocExit2 rodata ctx address maps).allocs.lookup =
      match maps.sizes.lookup ctx.tid with
      | none => maps.allocs.lookup
      | some sinfo =>
          if Recordable address ∧
              (bpfMapUpdateElem ctx.faults.allocs maps.allocs address
                (allocInfoOf sinfo ctx.ktime)).isSome then
            Function.update maps.allocs.lookup address (some (allocInfoOf sinfo ctx.ktime))
          else maps.allocs.lookup := by
  unfold genAllocExit2
  cases slot : maps.sizes.lookup ctx.tid with
  | none => rfl
  | some sinfo =>
      have updated := updateAllocs_lookup ctx address (allocInfoOf sinfo ctx.ktime)
        { maps with sizes := maps.sizes.erase ctx.tid }
      by_cases recordable : Recordable address
      · have condition : address ≠ 0 ∧ address ≠ mapFailed := recordable
        simp only [if_pos condition, recordable, true_and]
        rw [← updated]
        split
        · rw [updateStatisticsAdd_allocs]
        · rfl
      · have condition : ¬(address ≠ 0 ∧ address ≠ mapFailed) := recordable
        simp only [if_neg condition, recordable, false_and, if_false]

/-- An exit changes the allocations by its insertion. -/
theorem step_exit_allocs_inserted
    (rodata : Rodata)
    (maps : Maps)
    (ctx : Context)
    (fn : AllocFn) :
    (step rodata maps ⟨ctx, .exit fn⟩).allocs.lookup =
      inserted maps.allocs.lookup (insertion maps ⟨ctx, .exit fn⟩) := by
  have reached : ∀ address (start : Maps), start.sizes = maps.sizes →
      start.allocs = maps.allocs →
      Event.exitAddress ⟨ctx, .exit fn⟩ (maps.tables.threads ctx.tid) = some address →
      (genAllocExit2 rodata ctx address start).allocs.lookup =
        inserted maps.allocs.lookup (insertion maps ⟨ctx, .exit fn⟩) := by
    intro address start sizes allocs exits
    rw [genAllocExit2_allocs, sizes, allocs]
    unfold insertion
    simp only [Event.tid, exits]
    cases maps.sizes.lookup ctx.tid with
    | none => rfl
    | some sinfo =>
        dsimp only
        split <;> rfl
  have unreached : Event.exitAddress ⟨ctx, .exit fn⟩ (maps.tables.threads ctx.tid) = none →
      maps.allocs.lookup = inserted maps.allocs.lookup (insertion maps ⟨ctx, .exit fn⟩) := by
    intro noExit
    unfold insertion
    simp only [Event.tid, noExit]
    rfl
  simp only [step, AllocFn.exit_eq]
  split
  · next memalign =>
    subst memalign
    unfold posixMemalignExit
    cases recorded : maps.memptrs.lookup ctx.tid with
    | none =>
        apply unreached
        simp [Event.exitAddress, Maps.tables, recorded]
    | some memptr64 =>
        dsimp only
        cases read : ctx.readUser memptr64 with
        | none =>
            apply unreached
            simp [Event.exitAddress, Maps.tables, recorded, read]
        | some addr64 =>
            apply reached addr64
            · rfl
            · rfl
            · simp [Event.exitAddress, Maps.tables, recorded, read]
  · next plain =>
    apply reached ctx.rc maps rfl rfl
    simp [Event.exitAddress, plain]

/-- A record that is present after an event was inserted by it or was there
before. -/
theorem allocs_step
    {rodata : Rodata}
    {maps : Maps}
    {event : Event}
    {address : U64}
    {info : AllocInfo}
    (after : (step rodata maps event).allocs.lookup address = some info) :
    insertion maps event = some (address, info) ∨ maps.allocs.lookup address = some info := by
  obtain ⟨ctx, probe⟩ := event
  cases probe with
  | exit fn =>
      rw [step_exit_allocs_inserted] at after
      cases added : insertion maps ⟨ctx, .exit fn⟩ with
      | none =>
          rw [added] at after
          exact .inr after
      | some entry =>
          obtain ⟨place, record⟩ := entry
          rw [added, inserted] at after
          by_cases here : address = place
          · subst here
            rw [Function.update_self] at after
            obtain rfl := Option.some.inj after
            exact .inl rfl
          · rw [Function.update_of_ne here] at after
            exact .inr after
  | enter call =>
      obtain ⟨outcome, content, _⟩ := step_refines rodata maps ⟨ctx, .enter call⟩
      have kept : (step rodata maps ⟨ctx, .enter call⟩).tables.allocs =
          forget call.released maps.tables.allocs := by
        rw [content, Tables.step_enter_allocs]
      have found : forget call.released maps.tables.allocs address = some info := by
        rw [← kept]
        exact after
      exact .inr (of_forget_eq_some found).2
  | release call =>
      obtain ⟨outcome, content, _⟩ := step_refines rodata maps ⟨ctx, .release call⟩
      have kept : (step rodata maps ⟨ctx, .release call⟩).tables.allocs =
          forget (some call.address) maps.tables.allocs := by
        rw [content, Tables.step_release_allocs]
      have found : forget (some call.address) maps.tables.allocs address = some info := by
        rw [← kept]
        exact after
      exact .inr (of_forget_eq_some found).2

/-! ## Provenance -/

/-- The insertion of a record at one index carries the data that an entry at an
earlier index captured on the same thread, and nothing in between has emptied
the slot of that thread. -/
structure Origin
    (rodata : Rodata)
    (events : List Event)
    (source index : Nat)
    (event : Event)
    (info : AllocInfo) : Prop where
  earlier : source < index
  captured : ∃ ctx call sinfo,
    events[source]? = some ⟨ctx, .enter call⟩ ∧ ctx.tid = event.tid ∧
      captureOf rodata ctx call.size = some sinfo ∧
      info.size = sinfo.size ∧ info.stackId = sinfo.stackId ∧
      info.manualStack = sinfo.manualStack ∧ info.manualStackCnt = sinfo.manualStackCnt
  unconsumed : ∀ between later, source < between → between < index →
    events[between]? = some later → later.tid = event.tid →
      insertion (mapsBefore rodata events between) later = none ∧
        ¬Discards (mapsBefore rodata events between) later

/-- The indices of the insertions of a run. -/
def insertions (rodata : Rodata) (events : List Event) : Set Nat :=
  {index | ∃ event, events[index]? = some event ∧
    insertion (mapsBefore rodata events index) event ≠ none}

/-- A record that an entry's capture is copied to has the captured data. -/
theorem sameData_of_captured
    {rodata : Rodata}
    {ctx : Context}
    {size ktime : U64}
    {sinfo : SizeInfo}
    (captured : captureOf rodata ctx size = some sinfo) :
    (allocInfoOf sinfo ktime).manualStack = sinfo.manualStack := by
  apply SizeInfo.Padded.allocInfoOf_manualStack
  unfold captureOf at captured
  split at captured
  · obtain rfl := Option.some.inj captured
    exact captureSizeInfo_padded size ctx.stackId ctx.sp ctx.readUser
  · cases captured

/-- Every insertion has an origin: the entry that filled the slot last. -/
theorem exists_origin
    {rodata : Rodata}
    {events : List Event}
    {index : Nat}
    {event : Event}
    {address : U64}
    {info : AllocInfo}
    (inserts : insertion (mapsBefore rodata events index) event = some (address, info)) :
    ∃ source, Origin rodata events source index event info := by
  obtain ⟨sinfo, exits, slot, _, rfl⟩ := of_insertion inserts
  have filled : ¬((Maps.empty.tables.threads event.tid).slot = some sinfo) := by
    rw [Maps.tables_empty]
    exact fun occupied => by cases occupied
  obtain ⟨source, entry, earlier, found, ⟨thread, captured⟩, kept⟩ :=
    run_since (step rodata) Maps.empty events
      (fun maps => (maps.tables.threads event.tid).slot = some sinfo)
      (fun _ entry => entry.tid = event.tid ∧ entry.captured rodata = some sinfo)
      (fun maps later => later.tid = event.tid ∧
        (later.exitAddress (maps.tables.threads event.tid)).isSome)
      (fun _ _ after => slot_step after) filled index slot
  obtain ⟨ctx, probe⟩ := entry
  refine ⟨source, earlier, ?_, ?_⟩
  · cases probe with
    | enter call =>
        exact ⟨ctx, call, sinfo, found, thread, captured, rfl, rfl,
          sameData_of_captured captured, rfl⟩
    | exit fn => cases captured
    | release call => cases captured
  · intro between later after before atBetween sameThread
    have noExit := kept between later after before atBetween
    rw [← sameThread] at noExit
    constructor
    · apply Option.eq_none_iff_forall_ne_some.mpr
      rintro ⟨place, record⟩ insertsToo
      obtain ⟨_, exitsToo, _⟩ := of_insertion insertsToo
      exact noExit ⟨rfl, Option.isSome_of_eq_some exitsToo⟩
    · intro discards
      exact noExit ⟨rfl, discards.1⟩

/-- Every present record was inserted by some event. -/
theorem exists_insertion
    (rodata : Rodata)
    (events : List Event)
    (address : U64)
    (info : AllocInfo)
    (present : (runEvents rodata events).allocs.lookup address = some info) :
    ∃ index event, events[index]? = some event ∧
      insertion (mapsBefore rodata events index) event = some (address, info) := by
  have absent : ¬(Maps.empty.allocs.lookup address = some info) := by
    rw [Maps.empty, BoundedMap.lookup_empty]
    exact fun found => by cases found
  obtain ⟨index, event, _, found, inserts, _⟩ :=
    run_since (step rodata) Maps.empty events
      (fun maps => maps.allocs.lookup address = some info)
      (fun maps event => insertion maps event = some (address, info))
      (fun _ _ => False)
      (fun maps event after => (allocs_step after).imp_right fun before => ⟨before, not_false⟩)
      absent events.length (by rw [List.take_length]; exact present)
  exact ⟨index, event, found, inserts⟩

/-- On every run there is an injective assignment from the insertions into
`allocs` to earlier entries on the same thread with the inserted data, and
between the two nothing empties the slot of the thread.  Every record that is
present comes from an insertion. -/
theorem provenance
    (rodata : Rodata)
    (events : List Event) :
    (∃ assign : Nat → Nat, Set.InjOn assign (insertions rodata events) ∧
      ∀ index event address info, events[index]? = some event →
        insertion (mapsBefore rodata events index) event = some (address, info) →
        Origin rodata events (assign index) index event info) ∧
    ∀ address info, (runEvents rodata events).allocs.lookup address = some info →
      ∃ index event, events[index]? = some event ∧
        insertion (mapsBefore rodata events index) event = some (address, info) := by
  refine ⟨?_, exists_insertion rodata events⟩
  have assigned : ∀ index, ∃ source, ∀ event address info, events[index]? = some event →
      insertion (mapsBefore rodata events index) event = some (address, info) →
      Origin rodata events source index event info := by
    intro index
    cases here : events[index]? with
    | none => exact ⟨0, fun event address info found => by cases found⟩
    | some event =>
        cases inserts : insertion (mapsBefore rodata events index) event with
        | none =>
            refine ⟨0, fun other address info found insertsToo => ?_⟩
            obtain rfl := Option.some.inj found
            rw [inserts] at insertsToo
            cases insertsToo
        | some entry =>
            obtain ⟨source, origin⟩ := exists_origin inserts
            refine ⟨source, fun other address info found insertsToo => ?_⟩
            obtain rfl := Option.some.inj found
            rw [inserts] at insertsToo
            cases insertsToo
            exact origin
  choose assign origins using assigned
  refine ⟨assign, ?_, origins⟩
  have apart : ∀ first second, first < second →
      first ∈ insertions rodata events → second ∈ insertions rodata events →
      assign first ≠ assign second := by
    rintro first second before ⟨firstEvent, atFirst, firstInserts⟩
      ⟨secondEvent, atSecond, secondInserts⟩ same
    obtain ⟨⟨_, _⟩, firstInserted⟩ := Option.ne_none_iff_exists'.mp firstInserts
    obtain ⟨⟨_, _⟩, secondInserted⟩ := Option.ne_none_iff_exists'.mp secondInserts
    have firstOrigin := origins first _ _ _ atFirst firstInserted
    have secondOrigin := origins second _ _ _ atSecond secondInserted
    obtain ⟨ctx, call, _, source, thread, _⟩ := firstOrigin.captured
    obtain ⟨otherCtx, otherCall, _, otherSource, otherThread, _⟩ := secondOrigin.captured
    rw [← same, source] at otherSource
    cases otherSource
    have between := secondOrigin.unconsumed first firstEvent
      (same ▸ firstOrigin.earlier) before atFirst (thread.symm.trans otherThread)
    exact firstInserts between.1
  intro first firstInserts second secondInserts same
  rcases Nat.lt_trichotomy first second with before | equal | after
  · exact absurd same (apart first second before firstInserts secondInserts)
  · exact equal
  · exact absurd same.symm (apart second first after secondInserts firstInserts)

end Memleak
end EbpfHub
