import EbpfHub.Foundations.Sessions
import EbpfHub.Symbols.LinearSearch
import EbpfHub.Symbols.Releases
import Mathlib.Data.Int.Interval

/-!
# The cache of the symbols of processes

`syms_cache` keeps what was loaded for every process that was asked about.  A
process is loaded once, at the first request for which the cache can grow, and
the requests about one process are answered as if no other were asked about.
-/

namespace EbpfHub
namespace Symbols

open Foundations

/-- What a call finds outside. -/
structure Moment where
  system : System
  /-- The content of a file, `none` when `fopen` fails. -/
  file : Name → Option (List Char)
  /-- `realloc` succeeds. -/
  grows : Bool

/-- `fname` in `syms__load_pid`. -/
def mapsPath (tgid : Int) : Name :=
  "/proc/".toList ++ (toString tgid).toList ++ "/maps".toList

/-- An element of `data` in `struct syms_cache`. -/
structure CacheEntry where
  /-- `none` for `NULL`. -/
  syms : Option Syms
  tgid : Int
  deriving DecidableEq

/-- `struct syms_cache`.  The number of the entries is `nr`. -/
abbrev SymsCache := List CacheEntry

/-- What is undefined when the cache is used. -/
inductive CacheFault
  /-- `nr + 1` is no `int`. -/
  | overflow
  /-- In the load of a process. -/
  | load (fault : Fault)
  /-- In a lookup. -/
  | lookup (fault : Fault)
  deriving DecidableEq

/-- `syms__load_pid`, `none` for `NULL`. -/
def loadPid (now : Moment) (tgid : Int) : Except CacheFault (Option Syms) :=
  match loadFile now.system (now.file (mapsPath tgid)) with
  | .error (.fault fault) => .error (.load fault)
  | .error .failed => .ok none
  | .ok syms => .ok (some syms)

namespace SymsCache

/-- The pointer in an entry, `none` for `NULL`. -/
def symsAt (cache : SymsCache) (i : Nat) : Option Syms := cache[i]?.bind CacheEntry.syms

/-- The cache after the objects of an entry have changed. -/
def setSyms (cache : SymsCache) (i : Nat) (syms : Syms) : SymsCache :=
  cache.modify i fun entry => { entry with syms := some syms }

/-- `syms_cache__get_syms`, with the index of the entry whose pointer it
returns, `none` when it returns `NULL` for want of memory. -/
def getSyms
    (now : Moment)
    (tgid : Int)
    (cache : SymsCache) : Except CacheFault (SymsCache × Option Nat) :=
  match cache.findIdx? (·.tgid = tgid) with
  | some i => .ok (cache, some i)
  | none =>
      if !fitsInt (cache.length + 1) then .error .overflow
      else if !now.grows then .ok (cache, none)
      else
        (loadPid now tgid).map fun syms => (cache ++ [⟨syms, tgid⟩], some cache.length)

/-- `syms_cache__free`. -/
def free (cache : SymsCache) : Except Fault SymsCache :=
  cache.mapM fun entry =>
    match entry.syms with
    | none => .ok entry
    | some syms => (symsFree syms).map fun syms => { entry with syms := some syms }

end SymsCache

/-! ## Lookups through the cache -/

/-- A request for the symbol of an address in a process, and what the calls
that serve it find outside. -/
structure Request where
  tgid : Int
  addr : U64
  moment : Moment

/-- What a user of the cache gets. -/
inductive Answer
  /-- There are no symbols of the process. -/
  | noSyms
  /-- `syms__map_addr_dso` fails. -/
  | unmapped
  | mapped (sinfo : SymInfo)
  deriving DecidableEq

/-- What the user makes of the result of `syms__map_addr_dso`. -/
def Answer.ofInfo : Option SymInfo → Answer
  | none => .unmapped
  | some sinfo => .mapped sinfo

/-- `syms__map_addr_dso` in the objects of a process. -/
def lookupIn
    (qsort : Qsort)
    (syms : Syms)
    (request : Request) : Except CacheFault (Syms × Answer) :=
  match mapAddrDso request.moment.system qsort syms request.addr with
  | .error fault => .error (.lookup fault)
  | .ok (syms, sinfo) => .ok (syms, .ofInfo sinfo)

/-- `syms__map_addr_dso` through the pointer of an entry, unless it is `NULL`. -/
def SymsCache.lookupAt
    (qsort : Qsort)
    (cache : SymsCache)
    (i : Nat)
    (request : Request) : Except CacheFault (SymsCache × Answer) :=
  match cache.symsAt i with
  | none => .ok (cache, .noSyms)
  | some syms =>
      (lookupIn qsort syms request).map fun result => (cache.setSyms i result.1, result.2)

/-- `syms_cache__get_syms` and then, unless it returns `NULL`,
`syms__map_addr_dso`. -/
def SymsCache.lookup
    (qsort : Qsort)
    (cache : SymsCache)
    (request : Request) : Except CacheFault (SymsCache × Answer) :=
  match cache.getSyms request.moment request.tgid with
  | .error fault => .error fault
  | .ok (cache, none) => .ok (cache, .noSyms)
  | .ok (cache, some i) => cache.lookupAt qsort i request

/-! ## One process -/

/-- What is known of a process: nothing, or what its load returned, with the
symbols that were loaded since. -/
abbrev Known := Option (Option Syms)

/-- An answer to a request about a process of which a load returned this. -/
def answerFrom
    (qsort : Qsort)
    (syms : Option Syms)
    (request : Request) : Except CacheFault (Known × Answer) :=
  match syms with
  | none => .ok (some none, .noSyms)
  | some syms =>
      (lookupIn qsort syms request).map fun result => (some (some result.1), result.2)

/-- An answer to a request about a process, which is loaded if nothing is known
of it and there is memory. -/
def answerAlone
    (qsort : Qsort)
    (known : Known)
    (request : Request) : Except CacheFault (Known × Answer) :=
  match known with
  | some syms => answerFrom qsort syms request
  | none =>
      if request.moment.grows then
        loadPid request.moment request.tgid >>= fun syms => answerFrom qsort syms request
      else .ok (none, .noSyms)

namespace SymsCache

/-- What the cache knows of a process. -/
def known (cache : SymsCache) (tgid : Int) : Known :=
  (cache.find? (·.tgid = tgid)).map CacheEntry.syms

@[simp] theorem known_nil (tgid : Int) : known [] tgid = none := rfl

theorem known_cons
    (entry : CacheEntry)
    (cache : SymsCache)
    (tgid : Int) :
    known (entry :: cache) tgid =
      if entry.tgid = tgid then some entry.syms else known cache tgid := by
  unfold known
  split
  · next same => rw [List.find?_cons_of_pos (by simpa using same)]; rfl
  · next other => rw [List.find?_cons_of_neg (by simpa using other)]

/-- Nothing is known of a process that has no entry. -/
theorem known_eq_none_of_findIdx?
    {cache : SymsCache}
    {tgid : Int}
    (missing : cache.findIdx? (·.tgid = tgid) = none) :
    cache.known tgid = none := by
  unfold known
  rw [List.findIdx?_eq_none_iff] at missing
  rw [List.find?_eq_none.mpr fun entry member => by simpa using missing entry member]
  rfl

/-- The first entry of a process says what is known of it. -/
theorem known_of_findIdx?
    {cache : SymsCache}
    {tgid : Int}
    {i : Nat}
    (found : cache.findIdx? (·.tgid = tgid) = some i) :
    cache.known tgid = some (cache.symsAt i) := by
  induction cache generalizing i with
  | nil => cases found
  | cons entry cache inductionHypothesis =>
      rw [List.findIdx?_cons] at found
      rw [known_cons]
      by_cases same : entry.tgid = tgid
      · rw [if_pos (by simpa using same)] at found
        cases found
        rw [if_pos same]
        rfl
      · rw [if_neg (by simpa using same)] at found
        obtain ⟨j, later, rfl⟩ := Option.map_eq_some_iff.mp found
        rw [if_neg same, inductionHypothesis later]
        rfl

/-- A change to the objects of the first entry of a process changes what is
known of that process only. -/
theorem known_setSyms
    {cache : SymsCache}
    {tgid : Int}
    {i : Nat}
    (found : cache.findIdx? (·.tgid = tgid) = some i)
    (syms : Syms) :
    (cache.setSyms i syms).known = Function.update cache.known tgid (some (some syms)) := by
  induction cache generalizing i with
  | nil => cases found
  | cons entry cache inductionHypothesis =>
      rw [List.findIdx?_cons] at found
      funext other
      by_cases same : entry.tgid = tgid
      · subst same
        rw [if_pos (by simp)] at found
        cases found
        rw [setSyms, List.modify_zero_cons, known_cons]
        by_cases own : other = entry.tgid
        · subst own
          rw [if_pos rfl, Function.update_self]
        · rw [if_neg (Ne.symm own), Function.update_of_ne own, known_cons, if_neg (Ne.symm own)]
      · rw [if_neg (by simpa using same)] at found
        obtain ⟨j, later, rfl⟩ := Option.map_eq_some_iff.mp found
        have tail := congrFun (inductionHypothesis later) other
        rw [setSyms, List.modify_succ_cons, known_cons, ← setSyms, tail]
        by_cases own : other = tgid
        · subst own
          rw [if_neg same, Function.update_self, Function.update_self]
        · rw [Function.update_of_ne own, Function.update_of_ne own, known_cons]

/-- A new entry at the end says what is known of a process that had none. -/
theorem known_append
    {cache : SymsCache}
    {tgid : Int}
    (missing : cache.findIdx? (·.tgid = tgid) = none)
    (syms : Option Syms) :
    known (cache ++ [⟨syms, tgid⟩]) = Function.update cache.known tgid (some syms) := by
  have unknown := known_eq_none_of_findIdx? missing
  funext other
  unfold known at unknown ⊢
  rw [List.find?_append]
  by_cases own : other = tgid
  · subst own
    rw [Option.map_eq_none_iff] at unknown
    rw [unknown, Function.update_self, List.find?_cons_of_pos (by simp)]
    rfl
  · rw [Function.update_of_ne own, List.find?_cons_of_neg (by simpa using Ne.symm own)]
    simp

/-! ## The entries -/

/-- The number can be that of a process. -/
def IsPid (tgid : Int) : Prop := 0 < tgid ∧ tgid < 2 ^ 31

/-- Every process has one entry at most. -/
structure WellKeyed (cache : SymsCache) : Prop where
  distinct : (cache.map CacheEntry.tgid).Nodup
  pids : ∀ entry ∈ cache, IsPid entry.tgid

namespace WellKeyed

theorem nil : WellKeyed [] := ⟨List.nodup_nil, by simp⟩

theorem not_mem_tgids
    {cache : SymsCache}
    {tgid : Int}
    (missing : cache.findIdx? (·.tgid = tgid) = none) :
    tgid ∉ cache.map CacheEntry.tgid := by
  intro member
  obtain ⟨entry, inCache, rfl⟩ := List.mem_map.mp member
  have other := List.findIdx?_eq_none_iff.mp missing entry inCache
  simp at other

/-- There are fewer processes than an `int` can count. -/
theorem fitsInt_length
    {cache : SymsCache}
    (well : cache.WellKeyed)
    {tgid : Int}
    (pid : IsPid tgid)
    (missing : cache.findIdx? (·.tgid = tgid) = none) :
    fitsInt (cache.length + 1) = true := by
  have distinct : (tgid :: cache.map CacheEntry.tgid).Nodup :=
    List.nodup_cons.mpr ⟨not_mem_tgids missing, well.distinct⟩
  have inside : (tgid :: cache.map CacheEntry.tgid).toFinset ⊆ Finset.Ioo (0 : Int) (2 ^ 31) := by
    intro other member
    rw [List.mem_toFinset] at member
    rw [Finset.mem_Ioo]
    rcases List.mem_cons.mp member with rfl | inCache
    · exact pid
    · obtain ⟨entry, inEntries, rfl⟩ := List.mem_map.mp inCache
      exact well.pids entry inEntries
  have bound := Finset.card_le_card inside
  rw [List.toFinset_card_of_nodup distinct, Int.card_Ioo, List.length_cons,
    List.length_map] at bound
  unfold fitsInt
  simp only [Bool.and_eq_true, decide_eq_true_eq]
  omega

theorem append
    {cache : SymsCache}
    (well : cache.WellKeyed)
    {tgid : Int}
    (pid : IsPid tgid)
    (missing : cache.findIdx? (·.tgid = tgid) = none)
    (syms : Option Syms) :
    WellKeyed (cache ++ [⟨syms, tgid⟩]) := by
  constructor
  · rw [List.map_append, List.map_singleton, List.nodup_append]
    refine ⟨well.distinct, List.nodup_singleton _, ?_⟩
    rintro other member _ last rfl
    rw [List.mem_singleton.mp last] at member
    exact not_mem_tgids missing member
  · intro entry member
    rcases List.mem_append.mp member with old | new
    · exact well.pids entry old
    · rw [List.mem_singleton.mp new]
      exact pid

theorem setSyms
    {cache : SymsCache}
    (well : cache.WellKeyed)
    (i : Nat)
    (syms : Syms) :
    (cache.setSyms i syms).WellKeyed := by
  have tgids : (cache.setSyms i syms).map CacheEntry.tgid = cache.map CacheEntry.tgid := by
    unfold SymsCache.setSyms
    ext j tgid
    rw [List.getElem?_map, List.getElem?_modify, List.getElem?_map]
    split
    · cases cache[j]? with
      | none => rfl
      | some entry => rfl
    · cases cache[j]? with
      | none => rfl
      | some entry => rfl
  constructor
  · rw [tgids]
    exact well.distinct
  · intro entry member
    have inTgids : entry.tgid ∈ (cache.setSyms i syms).map CacheEntry.tgid :=
      List.mem_map_of_mem member
    rw [tgids] at inTgids
    obtain ⟨old, inCache, same⟩ := List.mem_map.mp inTgids
    rw [← same]
    exact well.pids old inCache

end WellKeyed

/-! ## The steps of the cache -/

/-- A process that is known is found, and any other gets an entry at the end if
there is memory. -/
theorem getSyms_cases
    {cache : SymsCache}
    (well : cache.WellKeyed)
    {tgid : Int}
    (pid : IsPid tgid)
    (now : Moment) :
    (∃ i, cache.findIdx? (·.tgid = tgid) = some i ∧ cache.getSyms now tgid = .ok (cache, some i)) ∨
      cache.findIdx? (·.tgid = tgid) = none ∧
        (now.grows = false ∧ cache.getSyms now tgid = .ok (cache, none) ∨
          now.grows = true ∧ cache.getSyms now tgid = (loadPid now tgid).map fun syms =>
            (cache ++ [⟨syms, tgid⟩], some cache.length)) := by
  unfold getSyms
  cases found : cache.findIdx? (·.tgid = tgid) with
  | some i => exact .inl ⟨i, rfl, rfl⟩
  | none =>
      refine .inr ⟨rfl, ?_⟩
      dsimp only
      rw [well.fitsInt_length pid found]
      cases now.grows with
      | false => exact .inl ⟨rfl, rfl⟩
      | true => exact .inr ⟨rfl, rfl⟩

/-- The answer from the first entry of the process is one from what its load
returned. -/
theorem lookupAt_eq_answerFrom
    (qsort : Qsort)
    {cache : SymsCache}
    {request : Request}
    {i : Nat}
    (found : cache.findIdx? (·.tgid = request.tgid) = some i) :
    (cache.lookupAt qsort i request).map (fun result => (result.1.known, result.2)) =
      (answerFrom qsort (cache.symsAt i) request).map fun result =>
        (Function.update cache.known request.tgid result.1, result.2) := by
  have known := known_of_findIdx? found
  unfold lookupAt answerFrom
  cases entry : cache.symsAt i with
  | none =>
      rw [entry] at known
      simp only [Except.map, ← known, Function.update_eq_self]
  | some syms =>
      dsimp only
      cases lookupIn qsort syms request with
      | error fault => rfl
      | ok result => simp only [Except.map, known_setSyms found]

/-- The cache answers a request as the process that it is about would alone. -/
theorem lookup_eq_family
    (qsort : Qsort)
    {cache : SymsCache}
    (well : cache.WellKeyed)
    {request : Request}
    (pid : IsPid request.tgid) :
    (cache.lookup qsort request).map (fun result => (result.1.known, result.2)) =
      family (answerAlone qsort) Request.tgid cache.known request := by
  unfold lookup family answerAlone
  rcases getSyms_cases well pid request.moment with
    ⟨i, found, get⟩ | ⟨missing, ⟨full, get⟩ | ⟨room, get⟩⟩
  · rw [get, known_of_findIdx? found]
    exact lookupAt_eq_answerFrom qsort found
  · rw [get, known_eq_none_of_findIdx? missing, full]
    have unchanged := Function.update_eq_self request.tgid cache.known
    rw [known_eq_none_of_findIdx? missing] at unchanged
    simp only [Bool.false_eq_true, if_false, Except.map, unchanged]
  · rw [get, known_eq_none_of_findIdx? missing, room]
    cases load : loadPid request.moment request.tgid with
    | error fault => rfl
    | ok syms =>
        have found : List.findIdx? (·.tgid = request.tgid) (cache ++ [⟨syms, request.tgid⟩]) =
            some cache.length := by
          rw [List.findIdx?_append, missing]
          simp [List.findIdx?_cons]
        have newest : symsAt (cache ++ [⟨syms, request.tgid⟩]) cache.length = syms := by
          simp [symsAt]
        have answered := lookupAt_eq_answerFrom qsort found
        rw [newest, known_append missing] at answered
        simp only [Function.update_idem] at answered
        exact answered

/-- A request keeps the entries well keyed. -/
theorem WellKeyed.lookup
    {qsort : Qsort}
    {cache next : SymsCache}
    {request : Request}
    {answer : Answer}
    (well : cache.WellKeyed)
    (pid : IsPid request.tgid)
    (answered : cache.lookup qsort request = .ok (next, answer)) :
    next.WellKeyed := by
  have grown : ∀ now tgid other i, IsPid tgid → cache.getSyms now tgid = .ok (other, i) →
      WellKeyed other := by
    intro now tgid other i pid get
    rcases getSyms_cases well pid now with
      ⟨j, found, same⟩ | ⟨missing, ⟨full, same⟩ | ⟨room, same⟩⟩
    · rw [same] at get
      cases get
      exact well
    · rw [same] at get
      cases get
      exact well
    · rw [same] at get
      obtain ⟨syms, -, grown⟩ := exists_of_map_eq_ok get
      cases grown
      exact well.append pid missing syms
  unfold SymsCache.lookup at answered
  split at answered
  · cases answered
  · next get =>
      cases answered
      exact grown _ _ _ _ pid get
  · next get =>
      have others := grown _ _ _ _ pid get
      unfold lookupAt at answered
      split at answered
      · cases answered
        exact others
      · next syms _ =>
          cases found : lookupIn qsort syms request with
          | error fault =>
              rw [found] at answered
              cases answered
          | ok result =>
              rw [found] at answered
              cases answered
              exact others.setSyms _ _

end SymsCache

/-! ## Runs of requests -/

/-- The requests about one process, served from what its load returned. -/
def servedFrom
    (qsort : Qsort)
    (syms : Option Syms)
    (requests : List Request) : Except CacheFault (List (Request × Answer)) :=
  match syms with
  | none => .ok (requests.map fun request => (request, .noSyms))
  | some syms => (runLog (lookupIn qsort) syms requests).map Prod.snd

/-- The requests about one process: those before the first for which there is
memory find no symbols, and that one and all later ones are served from the one
load that it makes. -/
def served (qsort : Qsort) : List Request → Except CacheFault (List (Request × Answer))
  | [] => .ok []
  | request :: requests =>
      if request.moment.grows then
        loadPid request.moment request.tgid >>= fun syms =>
          servedFrom qsort syms (request :: requests)
      else (served qsort requests).map fun log => (request, .noSyms) :: log

theorem runLog_answerAlone_some
    (qsort : Qsort)
    (syms : Option Syms)
    (requests : List Request) :
    (runLog (answerAlone qsort) (some syms) requests).map Prod.snd =
      servedFrom qsort syms requests := by
  cases syms with
  | none =>
      induction requests with
      | nil => rfl
      | cons request requests inductionHypothesis =>
          have head : answerAlone qsort (some none) request = .ok (some none, .noSyms) := rfl
          rw [runLog_cons_of_ok head]
          cases tail : runLog (answerAlone qsort) (some none) requests with
          | error fault =>
              rw [tail] at inductionHypothesis
              cases inductionHypothesis
          | ok result =>
              rw [tail] at inductionHypothesis
              have rest := Except.ok.inj inductionHypothesis
              simp only [Except.map, servedFrom, List.map_cons, rest]
  | some syms =>
      have alone : (runLog (lookupIn qsort) syms requests).map
            (fun result => (some (some result.1), result.2)) =
          runLog (answerAlone qsort) (some (some syms)) requests := by
        apply runLog_abstract (fun syms => some (some syms)) (fun _ => True)
        · intro _ _ _ _ _ _ _
          trivial
        · intro _ _ _ _
          rfl
        · trivial
      rw [← alone, servedFrom]
      cases runLog (lookupIn qsort) syms requests with
      | error fault => rfl
      | ok result => rfl

/-- A process that nothing is known of is served from one load. -/
theorem runLog_answerAlone_none
    (qsort : Qsort)
    (requests : List Request) :
    (runLog (answerAlone qsort) none requests).map Prod.snd = served qsort requests := by
  induction requests with
  | nil => rfl
  | cons request requests inductionHypothesis =>
      unfold served
      split
      · next room =>
          have head : answerAlone qsort none request =
              loadPid request.moment request.tgid >>= fun syms => answerFrom qsort syms request :=
            if_pos room
          cases load : loadPid request.moment request.tgid with
          | error fault =>
              rw [load] at head
              rw [runLog_cons_of_error head]
              rfl
          | ok syms =>
              rw [load] at head
              have same : answerAlone qsort none request =
                  answerAlone qsort (some syms) request := head
              refine Eq.trans ?_ (runLog_answerAlone_some qsort syms (request :: requests))
              rw [runLog, runLog, same]
      · next full =>
          have head : answerAlone qsort none request = .ok (none, .noSyms) := if_neg full
          rw [runLog_cons_of_ok head, ← inductionHypothesis]
          cases runLog (answerAlone qsort) none requests with
          | error fault => rfl
          | ok result => rfl

/-- The requests about a process. -/
abbrev requestsOf (tgid : Int) (requests : List Request) : List Request :=
  ownedBy Request.tgid tgid requests

/-- The runs of the cache are those of a family of processes. -/
theorem runLog_lookup_eq_family
    (qsort : Qsort)
    {requests : List Request}
    (pids : ∀ request ∈ requests, SymsCache.IsPid request.tgid) :
    (runLog (SymsCache.lookup qsort) [] requests).map
        (fun result => (SymsCache.known result.1, result.2)) =
      runLog (family (answerAlone qsort) Request.tgid) (fun _ => none) requests := by
  apply runLog_abstract SymsCache.known SymsCache.WellKeyed
  · intro cache request member next answer answered well
    exact well.lookup (pids request member) answered
  · intro cache request member well
    exact SymsCache.lookup_eq_family qsort well (pids request member)
  · exact .nil

/-- Whatever the order of the requests about different processes, the cache
serves those about each process from one load of that process, as if there were
no others.  It fails when one of these processes alone would. -/
theorem syms_cache_serves_each_process_alone
    (qsort : Qsort)
    {requests : List Request}
    (pids : ∀ request ∈ requests, SymsCache.IsPid request.tgid) :
    (∀ cache log, runLog (SymsCache.lookup qsort) [] requests = .ok (cache, log) →
        ∀ tgid, served qsort (requestsOf tgid requests) = .ok (logOf Request.tgid tgid log)) ∧
      ((∃ result, runLog (SymsCache.lookup qsort) [] requests = .ok result) ↔
        ∀ tgid, ∃ log, served qsort (requestsOf tgid requests) = .ok log) := by
  have family := runLog_lookup_eq_family qsort pids
  have alone : ∀ tgid, (∃ log, served qsort (requestsOf tgid requests) = .ok log) ↔
      ∃ result, runLog (answerAlone qsort) none (requestsOf tgid requests) = .ok result := by
    intro tgid
    rw [← runLog_answerAlone_none]
    cases runLog (answerAlone qsort) none (requestsOf tgid requests) with
    | error fault => simp [Except.map]
    | ok result => simp [Except.map]
  refine ⟨?_, ?_⟩
  · intro cache log succeeds tgid
    rw [succeeds] at family
    rw [← runLog_answerAlone_none, runLog_family family.symm tgid]
    rfl
  · simp only [alone]
    rw [← runLog_family_succeeds_iff, ← family]
    cases runLog (SymsCache.lookup qsort) [] requests with
    | error fault => simp [Except.map]
    | ok result => simp [Except.map]

/-! ## Two processes -/

/-- There are two processes, and the maps file of only one can be opened. -/
def oneMapsFile : Moment where
  system := oneMapping
  file := fun path =>
    if path = mapsPath 7 then some "1000-2000 r-xp 0 8:1 5 /a\n".toList else none
  grows := true

/-- Requests about the processes in turn. -/
def inTurn : List Request :=
  [⟨7, 0x1800, oneMapsFile⟩, ⟨8, 0x1800, oneMapsFile⟩, ⟨7, 0x1900, oneMapsFile⟩]

theorem isPid_of_mem_inTurn : ∀ request ∈ inTurn, SymsCache.IsPid request.tgid := by
  simp [inTurn, SymsCache.IsPid]

theorem syms_cache_serves_each_process_alone_inTurn :
    (∀ cache log, runLog (SymsCache.lookup .insertion) [] inTurn = .ok (cache, log) →
        ∀ tgid, served .insertion (requestsOf tgid inTurn) = .ok (logOf Request.tgid tgid log)) ∧
      ((∃ result, runLog (SymsCache.lookup .insertion) [] inTurn = .ok result) ↔
        ∀ tgid, ∃ log, served .insertion (requestsOf tgid inTurn) = .ok log) :=
  syms_cache_serves_each_process_alone .insertion isPid_of_mem_inTurn

end Symbols
end EbpfHub
