import EbpfHub.Foundations.Interleaving
import EbpfHub.Memleak.Refinement

/-!
# Threads do not disturb each other

While every update finds room, an event changes the entries of its own thread
and one address of `allocs`, and adds to or subtracts from the statistics of one
stack.  Events on different threads that touch different addresses commute.
-/

namespace EbpfHub
namespace Memleak

open Foundations

instance (event : Event) (thread : ThreadState) (address : U64) :
    Decidable (event.Touches thread address) :=
  inferInstanceAs (Decidable (_ ∨ _ ∧ _))

/-- An event touches an address, given the maps that it finds. -/
def Maps.Touches (maps : Maps) (event : Event) (address : U64) : Prop :=
  event.Touches (maps.tables.threads event.tid) address

instance (maps : Maps) (event : Event) (address : U64) : Decidable (maps.Touches event address) :=
  inferInstanceAs (Decidable (event.Touches _ address))

namespace Tables

/-- An event touches an address, given the content of the maps. -/
def Touches (tables : Tables) (event : Event) (address : U64) : Prop :=
  event.Touches (tables.threads event.tid) address

instance (tables : Tables) (event : Event) (address : U64) :
    Decidable (tables.Touches event address) :=
  inferInstanceAs (Decidable (event.Touches _ address))

/-! ## The statistics -/

/-- Every record is counted in the statistics of its stack. -/
def Counted (rodata : Rodata) (tables : Tables) : Prop :=
  rodata.combinedOnly = true → ∀ address info, tables.allocs address = some info →
    tables.combinedAllocs (statisticsKey info.stackId) ≠ none

theorem addStatistics_success (statistics : U64 → Option CombinedAllocInfo) (key sz : U64) :
    addStatistics .success statistics key sz =
      Function.update statistics key
        (some (((statistics key).getD CombinedAllocInfo.initial).add sz)) := by
  unfold addStatistics
  cases statistics key <;> rfl

theorem addStatistics_comm
    (statistics : U64 → Option CombinedAllocInfo)
    (first firstSize second secondSize : U64) :
    addStatistics .success (addStatistics .success statistics first firstSize) second secondSize =
      addStatistics .success (addStatistics .success statistics second secondSize) first
        firstSize := by
  simp only [addStatistics_success]
  by_cases same : first = second
  · subst same
    simp [CombinedAllocInfo.add_add_comm _ firstSize]
  · rw [Function.update_of_ne (Ne.symm same), Function.update_of_ne same,
      Function.update_comm same]

theorem delStatistics_comm
    (statistics : U64 → Option CombinedAllocInfo)
    (first firstSize second secondSize : U64) :
    delStatistics (delStatistics statistics first firstSize) second secondSize =
      delStatistics (delStatistics statistics second secondSize) first firstSize := by
  unfold delStatistics
  by_cases same : first = second
  · subst same
    cases statistics first with
    | none => simp
    | some info => simp [CombinedAllocInfo.del_del_comm _ firstSize]
  · rw [Function.update_of_ne (Ne.symm same), Function.update_of_ne same,
      Function.update_comm same]

/-- Counting one record commutes with discounting another that has been counted. -/
theorem addStatistics_delStatistics
    {statistics : U64 → Option CombinedAllocInfo}
    {deleted : U64}
    (counted : statistics deleted ≠ none)
    (added addedSize deletedSize : U64) :
    delStatistics (addStatistics .success statistics added addedSize) deleted deletedSize =
      addStatistics .success (delStatistics statistics deleted deletedSize) added addedSize := by
  simp only [addStatistics_success]
  unfold delStatistics
  by_cases same : added = deleted
  · subst same
    obtain ⟨info, present⟩ := Option.ne_none_iff_exists'.mp counted
    simp [present, CombinedAllocInfo.add_del_comm]
  · rw [Function.update_of_ne (Ne.symm same), Function.update_of_ne same,
      Function.update_comm same]

/-- The statistics after a release of the given record, if any. -/
def discount
    (rodata : Rodata)
    (record : Option AllocInfo)
    (statistics : U64 → Option CombinedAllocInfo) : U64 → Option CombinedAllocInfo :=
  match record with
  | none => statistics
  | some info =>
      if rodata.combinedOnly then
        delStatistics statistics (statisticsKey info.stackId) info.size
      else statistics

/-- The statistics after an insertion that succeeds. -/
def count
    (rodata : Rodata)
    (info : AllocInfo)
    (statistics : U64 → Option CombinedAllocInfo) : U64 → Option CombinedAllocInfo :=
  if rodata.combinedOnly then
    addStatistics .success statistics (statisticsKey info.stackId) info.size
  else statistics

@[simp] theorem apply_release_combinedAllocs
    (rodata : Rodata)
    (outcome : Outcome)
    (tables : Tables)
    (address : U64) :
    (tables.apply rodata outcome (.release address)).combinedAllocs =
      discount rodata (tables.allocs address) tables.combinedAllocs := by
  simp only [apply]
  cases tables.allocs address <;> rfl

@[simp] theorem apply_insert_combinedAllocs
    (rodata : Rodata)
    (tables : Tables)
    (address : U64)
    (info : AllocInfo) :
    (tables.apply rodata .success (.insert address info)).combinedAllocs =
      count rodata info tables.combinedAllocs := rfl

theorem count_comm
    (rodata : Rodata)
    (first second : AllocInfo)
    (statistics : U64 → Option CombinedAllocInfo) :
    count rodata second (count rodata first statistics) =
      count rodata first (count rodata second statistics) := by
  unfold count
  split
  · apply addStatistics_comm
  · rfl

theorem discount_comm
    (rodata : Rodata)
    (first second : Option AllocInfo)
    (statistics : U64 → Option CombinedAllocInfo) :
    discount rodata second (discount rodata first statistics) =
      discount rodata first (discount rodata second statistics) := by
  unfold discount
  cases first with
  | none => rfl
  | some first =>
      cases second with
      | none => rfl
      | some second =>
          dsimp only
          split
          · apply delStatistics_comm
          · rfl

/-- Counting a record commutes with discounting a record of the table. -/
theorem count_discount
    {rodata : Rodata}
    {tables : Tables}
    (counted : tables.Counted rodata)
    (address : U64)
    (info : AllocInfo) :
    discount rodata (tables.allocs address) (count rodata info tables.combinedAllocs) =
      count rodata info (discount rodata (tables.allocs address) tables.combinedAllocs) := by
  unfold discount count
  cases record : tables.allocs address with
  | none => rfl
  | some deleted =>
      dsimp only
      split
      · next combined =>
        exact addStatistics_delStatistics (counted combined address deleted record) _ _ _
      · rfl

end Tables

/-! ## The actions on `allocs` -/

/-- The address of an action. -/
def AllocAction.address : AllocAction → Option U64
  | .keep => none
  | .release address => some address
  | .insert address _ => some address

/-- An event touches the address of its action. -/
theorem Event.touches_of_action
    {event : Event}
    {thread : ThreadState}
    {address : U64}
    (acts : (event.action thread).address = some address) :
    event.Touches thread address := by
  unfold Event.action at acts
  cases released : event.released with
  | some other =>
      rw [released] at acts
      exact .inl (released.trans acts)
  | none =>
      rw [released] at acts
      cases exits : event.exitAddress thread with
      | none =>
          rw [exits] at acts
          cases acts
      | some other =>
          cases slot : thread.slot with
          | none =>
              rw [exits, slot] at acts
              cases acts
          | some sinfo =>
              rw [exits, slot] at acts
              dsimp only at acts
              split at acts
              · exact .inr ⟨exits.trans acts, by rw [slot]; exact Option.some_ne_none sinfo⟩
              · cases acts

namespace Tables

/-- Inserting a record and releasing another commute. -/
theorem apply_insert_release
    {rodata : Rodata}
    {tables : Tables}
    (counted : tables.Counted rodata)
    {inserted released : U64}
    (different : inserted ≠ released)
    (info : AllocInfo) :
    (tables.apply rodata .success (.insert inserted info)).apply rodata .success
        (.release released) =
      (tables.apply rodata .success (.release released)).apply rodata .success
        (.insert inserted info) := by
  ext : 1
  · simp only [apply_threads]
  · simp [Outcome.success, Function.update_comm different]
  · have kept : (tables.apply rodata .success (.insert inserted info)).allocs released =
        tables.allocs released := by
      simp [Outcome.success, Function.update_of_ne (Ne.symm different)]
    rw [apply_release_combinedAllocs, kept, apply_insert_combinedAllocs,
      apply_insert_combinedAllocs, apply_release_combinedAllocs]
    exact count_discount counted released info

/-- Actions on different addresses commute. -/
theorem apply_comm
    {rodata : Rodata}
    {tables : Tables}
    (counted : tables.Counted rodata)
    {first second : AllocAction}
    (apart : ∀ address, first.address = some address → second.address ≠ some address) :
    (tables.apply rodata .success first).apply rodata .success second =
      (tables.apply rodata .success second).apply rodata .success first := by
  cases first with
  | keep => rfl
  | release address =>
      cases second with
      | keep => rfl
      | release other =>
          have different : address ≠ other := by
            rintro rfl
            exact apart address rfl rfl
          ext : 1
          · simp only [apply_threads]
          · simp [Function.update_comm different]
          · simp only [apply_release_combinedAllocs, apply_release_allocs,
              Function.update_of_ne different, Function.update_of_ne (Ne.symm different)]
            apply discount_comm
      | insert other info =>
          refine (apply_insert_release counted ?_ info).symm
          rintro rfl
          exact apart other rfl rfl
  | insert address info =>
      cases second with
      | keep => rfl
      | release other =>
          refine apply_insert_release counted ?_ info
          rintro rfl
          exact apart address rfl rfl
      | insert other otherInfo =>
          have different : address ≠ other := by
            rintro rfl
            exact apart address rfl rfl
          ext : 1
          · simp only [apply_threads]
          · simp [Outcome.success, Function.update_comm different]
          · simp only [apply_insert_combinedAllocs]
            apply count_comm

/-- Discounting a record takes no stack out of the statistics. -/
theorem discount_ne_none
    {rodata : Rodata}
    {statistics : U64 → Option CombinedAllocInfo}
    {key : U64}
    (present : statistics key ≠ none)
    (record : Option AllocInfo) :
    discount rodata record statistics key ≠ none := by
  unfold discount delStatistics
  split
  · exact present
  · next info =>
    split
    · rw [Function.update_apply]
      split
      · next same =>
        rw [← same]
        simpa using present
      · exact present
    · exact present

/-- Counting a record takes no stack out of the statistics. -/
theorem count_ne_none
    {rodata : Rodata}
    {statistics : U64 → Option CombinedAllocInfo}
    {key : U64}
    (present : statistics key ≠ none)
    (info : AllocInfo) :
    count rodata info statistics key ≠ none := by
  unfold count
  rw [addStatistics_success]
  split
  · rw [Function.update_apply]
    split
    · exact Option.some_ne_none _
    · exact present
  · exact present

/-- Every action keeps the records counted. -/
theorem Counted.apply
    {rodata : Rodata}
    {tables : Tables}
    (counted : tables.Counted rodata)
    (action : AllocAction) :
    (tables.apply rodata .success action).Counted rodata := by
  intro combined address info present
  cases action with
  | keep => exact counted combined address info present
  | release other =>
      rw [apply_release_allocs] at present
      have kept : forget (some other) tables.allocs address = some info := present
      obtain ⟨_, before⟩ := of_forget_eq_some kept
      rw [apply_release_combinedAllocs]
      exact discount_ne_none (counted combined address info before) _
  | insert other inserted =>
      rw [apply_insert_combinedAllocs]
      simp only [apply_insert_allocs, Outcome.success, if_true, Function.update_apply] at present
      split at present
      · obtain rfl := Option.some.inj present
        rw [count, if_pos combined, addStatistics_success, Function.update_self]
        exact Option.some_ne_none _
      · exact count_ne_none (counted combined address info present) _

theorem Counted.step
    {rodata : Rodata}
    {tables : Tables}
    (counted : tables.Counted rodata)
    (event : Event) :
    (tables.step rodata .success event).Counted rodata :=
  counted.apply _

theorem Counted.empty (rodata : Rodata) : Tables.empty.Counted rodata := by
  intro _ _ _ present
  cases present

theorem setThread_comm
    (tables : Tables)
    {first second : U32}
    (different : first ≠ second)
    (firstThread secondThread : ThreadState) :
    (tables.setThread first firstThread).setThread second secondThread =
      (tables.setThread second secondThread).setThread first firstThread := by
  unfold setThread
  rw [Function.update_comm different]

/-! ## The events -/

/-- The second of two events on different threads acts as it would have first. -/
theorem step_step
    (rodata : Rodata)
    (tables : Tables)
    {first second : Event}
    (different : first.tid ≠ second.tid) :
    (tables.step rodata .success first).step rodata .success second =
      (((tables.apply rodata .success (first.action (tables.threads first.tid))).apply rodata
          .success (second.action (tables.threads second.tid))).setThread first.tid
            (first.next rodata .success (tables.threads first.tid))).setThread second.tid
              (second.next rodata .success (tables.threads second.tid)) := by
  conv_lhs => rw [step]
  rw [step_threads_of_ne _ _ _ _ (Ne.symm different), step, apply_setThread]

/-- Events on different threads that touch no common address commute. -/
theorem step_comm
    {rodata : Rodata}
    {tables : Tables}
    (counted : tables.Counted rodata)
    {first second : Event}
    (different : first.tid ≠ second.tid)
    (apart : ∀ address, tables.Touches first address → ¬tables.Touches second address) :
    (tables.step rodata .success first).step rodata .success second =
      (tables.step rodata .success second).step rodata .success first := by
  rw [step_step rodata tables different, step_step rodata tables (Ne.symm different),
    setThread_comm _ different]
  congr 2
  apply apply_comm counted
  intro address acts alsoActs
  exact apart address (Event.touches_of_action acts) (Event.touches_of_action alsoActs)

/-- The threads are independent but for the addresses that their events touch. -/
theorem independence (rodata : Rodata) :
    Independence (step rodata .success) Event.tid Touches (Counted rodata) where
  preserved := fun event counted => counted.step event
  touches_step := by
    intro first second tables address different
    unfold Touches
    rw [step_threads_of_ne _ _ _ _ (Ne.symm different)]
  commutes := fun counted different apart => step_comm counted different apart

end Tables

/-! ## The maps -/

/-- Maps with the same content and as many failed updates are the same. -/
theorem Maps.ext_tables
    {left right : Maps}
    (content : left.tables = right.tables)
    (failed : left.failedUpdates = right.failedUpdates) :
    left = right := by
  have threads : ∀ tid, left.tables.threads tid = right.tables.threads tid :=
    fun tid => congrArg (fun tables => tables.threads tid) content
  have sizes : left.sizes = right.sizes :=
    BoundedMap.ext_lookup fun tid => congrArg ThreadState.slot (threads tid)
  have memptrs : left.memptrs = right.memptrs :=
    BoundedMap.ext_lookup fun tid => congrArg ThreadState.memptr (threads tid)
  have allocs : left.allocs = right.allocs :=
    BoundedMap.ext_lookup fun address => congrFun (congrArg Tables.allocs content) address
  have combinedAllocs : left.combinedAllocs = right.combinedAllocs :=
    BoundedMap.ext_lookup fun key => congrFun (congrArg Tables.combinedAllocs content) key
  cases left
  cases right
  simp_all

/-- The events of a run of the programs that touch an address. -/
def touchingEvents (rodata : Rodata) (address : U64) (maps : Maps) (events : List Event) :
    List Event :=
  touching (step rodata) Maps.Touches address maps events

/-- In a run without failed updates they are those of the abstract machine. -/
theorem touchingEvents_of_noFailure
    {rodata : Rodata}
    {maps : Maps}
    {events : List Event}
    (noFailure : (run (step rodata) maps events).failedUpdates = 0)
    (address : U64) :
    touchingEvents rodata address maps events =
      touching (Tables.step rodata .success) Tables.Touches address maps.tables events := by
  induction events generalizing maps with
  | nil => rfl
  | cons event events inductionHypothesis =>
      unfold touchingEvents
      rw [touching_cons, touching_cons, ← tables_step_of_noFailure (noFailure_first noFailure)]
      exact congrArg _ (inductionHypothesis noFailure)

/-- Two runs without failed updates that order the events of each thread and the
events that touch each address in the same way end in the same maps. -/
theorem runEvents_eq_of_same_orders
    {rodata : Rodata}
    {left right : List Event}
    (sameThreads : ∀ tid, left.filter (fun event => event.tid = tid) =
      right.filter fun event => event.tid = tid)
    (sameAddresses : ∀ address, touchingEvents rodata address Maps.empty left =
      touchingEvents rodata address Maps.empty right)
    (leftSucceeds : (runEvents rodata left).failedUpdates = 0)
    (rightSucceeds : (runEvents rodata right).failedUpdates = 0) :
    runEvents rodata left = runEvents rodata right := by
  apply Maps.ext_tables
  · unfold runEvents at leftSucceeds rightSucceeds ⊢
    rw [tables_run_of_noFailure leftSucceeds, tables_run_of_noFailure rightSucceeds]
    apply (Tables.independence rodata).run_eq_of_same_orders
    · rw [Maps.tables_empty]
      exact Tables.Counted.empty rodata
    · exact sameThreads
    · intro address
      rw [← touchingEvents_of_noFailure leftSucceeds, ← touchingEvents_of_noFailure rightSucceeds]
      exact sameAddresses address
  · rw [leftSucceeds, rightSucceeds]

/-- Two events on different threads that touch no common address have the same
effect in either order, unless an update fails. -/
theorem runEvents_swap
    {rodata : Rodata}
    {events : List Event}
    {first second : Event}
    (different : first.tid ≠ second.tid)
    (apart : ∀ address, (runEvents rodata events).Touches first address →
      ¬(runEvents rodata events).Touches second address)
    (succeeds : (runEvents rodata (events ++ [first, second])).failedUpdates = 0)
    (otherSucceeds : (runEvents rodata (events ++ [second, first])).failedUpdates = 0) :
    runEvents rodata (events ++ [first, second]) =
      runEvents rodata (events ++ [second, first]) := by
  apply Maps.ext_tables
  · have reached : (runEvents rodata events).tables =
        run (Tables.step rodata .success) Tables.empty events := by
      rw [← Maps.tables_empty]
      exact tables_run_of_noFailure (noFailure_front succeeds)
    have counted : (runEvents rodata events).tables.Counted rodata := by
      rw [reached]
      exact run_invariant (Tables.Counted rodata) (fun _ event counted => counted.step event)
        (Tables.Counted.empty rodata) events
    unfold runEvents at succeeds otherSucceeds ⊢
    rw [tables_run_of_noFailure succeeds, tables_run_of_noFailure otherSucceeds, run_append,
      run_append, Maps.tables_empty, ← reached]
    exact Tables.step_comm counted different apart
  · rw [succeeds, otherSucceeds]

/-- Events on different threads that touch no common address commute in every
reachable state, and the maps at the end of a run depend only on the order of
the events of each thread and of those that touch each address, as long as no
update fails. -/
theorem threads_do_not_disturb_each_other (rodata : Rodata) :
    (∀ (events : List Event) (first second : Event),
      first.tid ≠ second.tid →
      (∀ address, (runEvents rodata events).Touches first address →
        ¬(runEvents rodata events).Touches second address) →
      (runEvents rodata (events ++ [first, second])).failedUpdates = 0 →
      (runEvents rodata (events ++ [second, first])).failedUpdates = 0 →
      runEvents rodata (events ++ [first, second]) =
        runEvents rodata (events ++ [second, first])) ∧
    ∀ left right : List Event,
      (∀ tid, left.filter (fun event => event.tid = tid) =
        right.filter fun event => event.tid = tid) →
      (∀ address, touchingEvents rodata address Maps.empty left =
        touchingEvents rodata address Maps.empty right) →
      (runEvents rodata left).failedUpdates = 0 →
      (runEvents rodata right).failedUpdates = 0 →
      runEvents rodata left = runEvents rodata right := by
  constructor
  · intro events first second different apart succeeds otherSucceeds
    exact runEvents_swap different apart succeeds otherSucceeds
  · intro left right sameThreads sameAddresses leftSucceeds rightSucceeds
    exact runEvents_eq_of_same_orders sameThreads sameAddresses leftSucceeds rightSucceeds

/-- A malloc begins on each of two threads. -/
def beginMallocs : List Event :=
  [⟨.quiet 1 0, .enter (.malloc 16)⟩, ⟨.quiet 2 0, .enter (.malloc 32)⟩]

/-- The malloc of the first thread returns. -/
def firstReturns : Event := ⟨.quiet 1 4096, .exit .malloc⟩

/-- The malloc of the second thread returns. -/
def secondReturns : Event := ⟨.quiet 2 8192, .exit .malloc⟩

/-- The same mallocs, one after the other. -/
def successiveMallocs : List Event :=
  [ ⟨.quiet 2 0, .enter (.malloc 32)⟩, secondReturns,
    ⟨.quiet 1 0, .enter (.malloc 16)⟩, firstReturns ]

theorem threads_do_not_disturb_each_other_mallocs :
    runEvents combinedSettings (beginMallocs ++ [firstReturns, secondReturns]) =
        runEvents combinedSettings (beginMallocs ++ [secondReturns, firstReturns]) ∧
      runEvents combinedSettings (beginMallocs ++ [firstReturns, secondReturns]) =
        runEvents combinedSettings successiveMallocs := by
  have touchesFirst : ∀ maps address, Maps.Touches maps firstReturns address → address = 4096 := by
    rintro maps address (released | ⟨exits, _⟩)
    · cases released
    · exact (Option.some.inj exits).symm
  have touchesSecond : ∀ maps address, Maps.Touches maps secondReturns address →
      address = 8192 := by
    rintro maps address (released | ⟨exits, _⟩)
    · cases released
    · exact (Option.some.inj exits).symm
  refine ⟨(threads_do_not_disturb_each_other combinedSettings).1 beginMallocs
      firstReturns secondReturns (by decide) ?_ (by decide) (by decide),
    (threads_do_not_disturb_each_other combinedSettings).2 _ successiveMallocs ?_ ?_ (by decide)
      (by decide)⟩
  · intro address byFirst bySecond
    have same := (touchesFirst _ address byFirst).symm.trans (touchesSecond _ address bySecond)
    exact absurd same (by decide)
  · intro tid
    by_cases first : 1#32 = tid
    · subst first
      rfl
    · by_cases second : 2#32 = tid
      · subst second
        rfl
      · simp [beginMallocs, successiveMallocs, firstReturns, secondReturns, Event.tid, first,
          second]
  · intro address
    by_cases first : address = 4096
    · subst first
      rfl
    · by_cases second : address = 8192
      · subst second
        rfl
      · have none : ∀ maps, ¬Maps.Touches maps firstReturns address ∧
            ¬Maps.Touches maps secondReturns address :=
          fun maps => ⟨fun touched => first (touchesFirst maps address touched),
            fun touched => second (touchesSecond maps address touched)⟩
        have enters : ∀ maps ctx size, ¬Maps.Touches maps ⟨ctx, .enter (.malloc size)⟩ address := by
          rintro maps ctx size (released | ⟨exits, _⟩)
          · cases released
          · cases exits
        simp [touchingEvents, touching_cons, beginMallocs, successiveMallocs, none, enters]

end Memleak
end EbpfHub
