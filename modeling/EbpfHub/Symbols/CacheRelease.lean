import EbpfHub.Symbols.Cache

/-!
# The release of the cache

What the loads of processes return has not been released, and lookups keep it
so, where no load of symbols fails after its file was opened.  So the release of
the cache finds every object of every process as it needs it.
-/

namespace EbpfHub
namespace Symbols

open Foundations

/-! ## What a load returns -/

/-- The dso has been made in the load of a process: it has no table yet, and its
name and its strings as far as there was memory. -/
structure Dso.MadeIn (system : System) (dso : Dso) : Prop where
  fresh : dso.Fresh
  named : dso.named = !system.strdupFails dso.name
  hasBtf : dso.hasBtf = !system.btfFails dso.name

theorem Dso.madeIn_new (system : System) (name : Name) : (Dso.new system name).MadeIn system :=
  ⟨⟨rfl, rfl⟩, rfl, rfl⟩

/-- A range that is added leaves all but the ranges and the kind of a dso. -/
theorem Dso.MadeIn.addRange
    {system : System}
    {map : Map}
    {name : Name}
    {dso next : Dso}
    (made : dso.MadeIn system)
    (added : Symbols.addRange system map name dso = .ok next) :
    next.MadeIn system := by
  obtain ⟨⟨unloaded, alive⟩, named, hasBtf⟩ := made
  unfold Symbols.addRange at added
  dsimp only at added
  repeat' split at added
  all_goals cases added
  all_goals exact ⟨⟨unloaded, alive⟩, named, hasBtf⟩

theorem madeIn_of_addDso
    {system : System}
    {map : Map}
    {name : Name}
    {syms next : Syms}
    (made : ∀ dso ∈ syms, dso.MadeIn system)
    (added : addDso system map name syms = .ok next) :
    ∀ dso ∈ next, dso.MadeIn system := by
  rcases of_addDso_eq_ok added with
    ⟨before, dso, dso', after, rfl, -, range, rfl⟩ | ⟨-, dso', range, rfl⟩
  · intro other member
    rcases List.mem_append.mp member with front | back
    · exact made other (List.mem_append_left _ front)
    · rcases List.mem_cons.mp back with rfl | later
      · exact (made dso (List.mem_append_right _ List.mem_cons_self)).addRange range
      · exact made other (List.mem_append_right _ (List.mem_cons_of_mem _ later))
  · intro other member
    rcases List.mem_append.mp member with old | new
    · exact made other old
    · obtain rfl := List.mem_singleton.mp new
      exact (Dso.madeIn_new system name).addRange range

/-- Every object that a load returns has been made in it. -/
theorem madeIn_of_loadLines
    {system : System}
    {passes : Nat}
    {input : List Char}
    {syms final : Syms}
    (made : ∀ dso ∈ syms, dso.MadeIn system)
    (loaded : loadLines system passes input syms = .ok final) :
    ∀ dso ∈ final, dso.MadeIn system := by
  induction passes generalizing input syms with
  | zero => cases loaded
  | succ passes inductionHypothesis =>
      unfold loadLines at loaded
      split at loaded
      · cases loaded
        exact made
      · cases loaded
      · cases loaded
      · split at loaded
        · exact inductionHypothesis made loaded
        · split at loaded
          · exact inductionHypothesis made loaded
          · split at loaded
            · cases loaded
            · next added => exact inductionHypothesis (madeIn_of_addDso made added) loaded

/-! ## How a load ends early -/

/-- There are characters in a line of the content that fill the buffer of a line
without room for a zero. -/
def HasLongLine (content : List Char) : Prop :=
  ∃ text, text <:+: content ∧ (∀ c ∈ text, c ≠ '\n') ∧ pathMax ≤ text.length

/-- The format ends with the rest of a line. -/
theorem mapsFormat_eq : ∃ format, mapsFormat = format ++ [.line] :=
  ⟨mapsFormat.dropLast, rfl⟩

/-- What a pass leaves is the end of what it found. -/
theorem suffix_of_scanLine
    {input perm buf rest : List Char}
    {map : Map}
    (scanned : scanLine input = .line map perm buf rest) :
    rest <:+ input := by
  unfold scanLine at scanned
  split at scanned
  · cases scanned
  · next found =>
      split at scanned
      · cases scanned
        exact Scanf.scan_suffix (congrArg Prod.snd found)
      · cases scanned
  · cases scanned

/-- The buffer overflows only at a long line. -/
theorem hasLongLine_of_scanLine
    {input : List Char}
    (overflows : scanLine input = .overflow) :
    HasLongLine input := by
  unfold scanLine at overflows
  split at overflows
  · cases overflows
  · next found =>
      split at overflows
      · cases overflows
      · next long =>
          obtain ⟨format, split⟩ := mapsFormat_eq
          rw [split] at found
          obtain ⟨before, chars, items, inside, inLine⟩ :=
            Scanf.scan_line_infix (congrArg Prod.snd found)
          rw [found] at items
          have last := congrArg List.getLast? items
          rw [List.getLast?_append, List.getLast?_singleton] at last
          obtain rfl := Scanf.Item.text.inj (Option.some.inj last)
          exact ⟨_, inside, inLine, Nat.not_lt.mp long⟩
  · cases overflows

/-- Adding a mapping stops only at a name for which there was no memory. -/
theorem fault_of_addDso
    {system : System}
    {map : Map}
    {name : Name}
    {syms : Syms}
    {fault : Fault}
    (made : ∀ dso ∈ syms, dso.MadeIn system)
    (stops : addDso system map name syms = .error (.fault fault)) :
    fault = .readNull ∧ ∃ other, system.strdupFails other = true := by
  have never : ∀ dso, addRange system map name dso ≠ .error (.fault fault) := by
    intro dso stops
    unfold addRange at stops
    dsimp only at stops
    repeat' split at stops
    all_goals cases stops
  induction syms with
  | nil => exact absurd (eq_error_of_map_eq_error stops) (never _)
  | cons dso rest inductionHypothesis =>
      obtain ⟨first, others⟩ := List.forall_mem_cons.mp made
      unfold addDso at stops
      split at stops
      · next unnamed =>
          cases stops
          rw [first.named, Bool.not_not] at unnamed
          exact ⟨rfl, dso.name, unnamed⟩
      · split at stops
        · exact absurd (eq_error_of_map_eq_error stops) (never dso)
        · exact inductionHypothesis others (eq_error_of_map_eq_error stops)

/-- A load stops only at a line that is longer than its buffer or a name for
which there was no memory. -/
theorem fault_of_loadLines
    {system : System}
    {passes : Nat}
    {input : List Char}
    {syms : Syms}
    {fault : Fault}
    (made : ∀ dso ∈ syms, dso.MadeIn system)
    (stops : loadLines system passes input syms = .error (.fault fault)) :
    fault = .outOfBounds ∧ HasLongLine input ∨
      fault = .readNull ∧ ∃ name, system.strdupFails name = true := by
  induction passes generalizing input syms with
  | zero => cases stops
  | succ passes inductionHypothesis =>
      have later : ∀ {map perm buf rest syms}, scanLine input = .line map perm buf rest →
          (∀ dso ∈ syms, dso.MadeIn system) →
          loadLines system passes rest syms = .error (.fault fault) →
          fault = .outOfBounds ∧ HasLongLine input ∨
            fault = .readNull ∧ ∃ name, system.strdupFails name = true := by
        intro map perm buf rest syms scanned made stops
        refine (inductionHypothesis made stops).imp_left fun long => ⟨long.1, ?_⟩
        obtain ⟨text, inside, isLong⟩ := long.2
        exact ⟨text, inside.trans (suffix_of_scanLine scanned).isInfix, isLong⟩
      unfold loadLines at stops
      split at stops
      · cases stops
      · next overflows =>
          cases stops
          exact .inl ⟨rfl, hasLongLine_of_scanLine overflows⟩
      · cases stops
      · next scanned =>
          split at stops
          · exact later scanned made stops
          · split at stops
            · exact later scanned made stops
            · split at stops
              · next added =>
                  cases stops
                  exact .inr (fault_of_addDso made added)
              · next added => exact later scanned (madeIn_of_addDso made added) stops

/-- The load of a process returns `NULL` or objects that have been made in it, or
it stops. -/
theorem loadPid_cases (now : Moment) (tgid : Int) :
    loadPid now tgid = .ok none ∨
      (∃ syms, loadPid now tgid = .ok (some syms) ∧ ∀ dso ∈ syms, dso.MadeIn now.system) ∨
      ∃ fault, loadPid now tgid = .error (.load fault) ∧
        ((fault = .outOfBounds ∧
            ∃ content, now.file (mapsPath tgid) = some content ∧ HasLongLine content) ∨
          fault = .readNull ∧ ∃ name, now.system.strdupFails name = true) := by
  unfold loadPid loadFile
  cases opened : now.file (mapsPath tgid) with
  | none => exact .inl rfl
  | some content =>
      dsimp only
      split
      · next ends =>
          split at ends
          · cases ends
          · have cause := fault_of_loadLines (fun _ member => by cases member) ends
            exact .inr (.inr ⟨_, rfl, cause.imp_left fun long => ⟨long.1, content, rfl, long.2⟩⟩)
      · exact .inl rfl
      · next ends =>
          split at ends
          · cases ends
          · exact .inr (.inl ⟨_, rfl, madeIn_of_loadLines (fun _ member => by cases member) ends⟩)

/-! ## The objects in the cache -/

/-- No load of the symbols of an object fails after its file was opened. -/
def Completes (system : System) (syms : Syms) : Prop :=
  ∀ dso ∈ syms, ∀ elf, dso.file system = some elf → ¬elf.FailsMidway system dso

/-- The objects are those of a load with other tables. -/
def Kept (system : System) (qsort : Qsort) (syms : Syms) : Prop :=
  ∃ originals, (∀ dso ∈ originals, dso.MadeIn system) ∧ Completes system originals ∧
    Syms.Keep system qsort originals syms

/-- All objects in the cache are kept. -/
def SymsCache.Kept (system : System) (qsort : Qsort) (cache : SymsCache) : Prop :=
  ∀ entry ∈ cache, ∀ syms, entry.syms = some syms → Symbols.Kept system qsort syms

/-- What ends the requests early, and why. -/
inductive EndsEarly (system : System) (requests : List Request) : CacheFault → Prop
  /-- A symbol table has entries of no size. -/
  | divides : EndsEarly system requests (.lookup .divideByZero)
  /-- There was no memory for the strings of an object that has symbols. -/
  | noStrings {name : Name} :
      system.btfFails name = true → EndsEarly system requests (.lookup .readNull)
  /-- There was no memory for the name of an object that is not the last. -/
  | noName {name : Name} :
      system.strdupFails name = true → EndsEarly system requests (.load .readNull)
  /-- A line of a maps file is longer than the buffer. -/
  | longLine {request : Request} {content : List Char} :
      request ∈ requests → request.moment.file (mapsPath request.tgid) = some content →
        HasLongLine content → EndsEarly system requests (.load .outOfBounds)

section Release

variable {system : System} {qsort : Qsort} {requests : List Request}

/-- A lookup keeps the objects, or the load of the symbols of one of them
stops. -/
theorem Kept.lookupIn
    {syms : Syms}
    (kept : Kept system qsort syms)
    {request : Request}
    (same : request.moment.system = system) :
    (∃ fault, lookupIn qsort syms request = .error fault ∧ EndsEarly system requests fault) ∨
      ∃ next answer, lookupIn qsort syms request = .ok (next, answer) ∧
        Kept system qsort next := by
  obtain ⟨originals, made, completes, keep⟩ := kept
  unfold Symbols.lookupIn
  rw [same]
  rcases mapAddrDso_of_keep keep (fun dso member => (made dso member).fresh) completes
    request.addr with ⟨fault, ⟨dso, member, kind⟩, stops, -⟩ | ⟨next, sinfo, lookup, kept, -⟩
  · rw [stops]
    refine .inl ⟨_, rfl, ?_⟩
    rcases kind with rfl | ⟨strings, rfl⟩
    · exact .divides
    · rw [(made dso member).hasBtf, Bool.not_eq_false'] at strings
      exact .noStrings strings
  · rw [lookup]
    exact .inr ⟨next, _, rfl, originals, made, completes, kept⟩

/-- A lookup through an entry keeps the objects in the cache, or stops. -/
theorem SymsCache.Kept.lookupAt
    {cache : SymsCache}
    (kept : cache.Kept system qsort)
    {request : Request}
    (same : request.moment.system = system)
    (i : Nat) :
    (∃ fault, cache.lookupAt qsort i request = .error fault ∧
        EndsEarly system requests fault) ∨
      ∃ next answer, cache.lookupAt qsort i request = .ok (next, answer) ∧
        next.Kept system qsort := by
  unfold SymsCache.lookupAt
  cases here : cache.symsAt i with
  | none => exact .inr ⟨cache, _, rfl, kept⟩
  | some syms =>
      obtain ⟨entry, inCache, hasSyms⟩ := Option.bind_eq_some_iff.mp here
      dsimp only
      rcases (kept entry (List.mem_of_getElem? inCache) syms hasSyms).lookupIn same with
        ⟨fault, stops, early⟩ | ⟨next, answer, lookup, nextKept⟩
      · rw [stops]
        exact .inl ⟨fault, rfl, early⟩
      · rw [lookup]
        refine .inr ⟨_, _, rfl, ?_⟩
        intro other member others found
        obtain ⟨j, atJ⟩ := List.mem_iff_getElem?.mp member
        rw [SymsCache.setSyms, List.getElem?_modify] at atJ
        split at atJ
        · obtain ⟨old, -, rfl⟩ := Option.map_eq_some_iff.mp atJ
          cases found
          exact nextKept
        · obtain ⟨old, atOld, rfl⟩ := Option.map_eq_some_iff.mp atJ
          exact kept old (List.mem_of_getElem? atOld) others found

/-- A request keeps the objects in the cache, or stops. -/
theorem SymsCache.Kept.lookup
    {cache : SymsCache}
    (well : cache.WellKeyed)
    (kept : cache.Kept system qsort)
    {request : Request}
    (member : request ∈ requests)
    (pid : SymsCache.IsPid request.tgid)
    (same : request.moment.system = system)
    (completes : ∀ syms, loadPid request.moment request.tgid = .ok (some syms) →
      Completes system syms) :
    (∃ fault, cache.lookup qsort request = .error fault ∧ EndsEarly system requests fault) ∨
      ∃ next answer, cache.lookup qsort request = .ok (next, answer) ∧
        next.Kept system qsort := by
  unfold SymsCache.lookup
  rcases SymsCache.getSyms_cases well pid request.moment with
    ⟨i, found, get⟩ | ⟨missing, ⟨full, get⟩ | ⟨room, get⟩⟩
  · rw [get]
    exact kept.lookupAt same i
  · rw [get]
    exact .inr ⟨cache, _, rfl, kept⟩
  · rw [get]
    rcases loadPid_cases request.moment request.tgid with
      null | ⟨syms, loaded, made⟩ | ⟨fault, stops, cause⟩
    · rw [null]
      refine SymsCache.Kept.lookupAt ?_ same cache.length
      intro entry inCache syms found
      rcases List.mem_append.mp inCache with old | new
      · exact kept entry old syms found
      · rw [List.mem_singleton.mp new] at found
        cases found
    · rw [loaded]
      rw [same] at made
      refine SymsCache.Kept.lookupAt ?_ same cache.length
      intro entry inCache others found
      rcases List.mem_append.mp inCache with old | new
      · exact kept entry old others found
      · rw [List.mem_singleton.mp new] at found
        cases found
        exact ⟨syms, made, completes syms loaded,
          List.forall₂_same.mpr fun dso inSyms => .refl (made dso inSyms).fresh⟩
    · rw [stops]
      refine .inl ⟨_, rfl, ?_⟩
      rcases cause with ⟨rfl, content, opened, long⟩ | ⟨rfl, name, fails⟩
      · exact .longLine member opened long
      · rw [same] at fails
        exact .noName fails

/-- A cache whose objects are kept is released, every object once. -/
theorem SymsCache.Kept.free
    {cache : SymsCache}
    (kept : cache.Kept system qsort) :
    ∃ final, cache.free = .ok final ∧
      ∀ entry ∈ final, ∀ syms, entry.syms = some syms → ∀ dso ∈ syms, dso.released = true := by
  unfold SymsCache.free
  induction cache with
  | nil => exact ⟨[], rfl, by simp⟩
  | cons entry cache inductionHypothesis =>
      obtain ⟨here, others⟩ := List.forall_mem_cons.mp kept
      obtain ⟨rest, freed, released⟩ := inductionHypothesis others
      rw [List.mapM_cons, freed]
      obtain ⟨syms, tgid⟩ := entry
      cases syms with
      | none => exact ⟨_, rfl, List.forall_mem_cons.mpr ⟨by simp, released⟩⟩
      | some syms =>
          obtain ⟨originals, made, -, keep⟩ := here syms rfl
          dsimp only
          rw [symsFree_of_keep keep fun dso member => (made dso member).fresh]
          refine ⟨_, rfl, List.forall_mem_cons.mpr ⟨?_, released⟩⟩
          intro final same dso member
          cases same
          obtain ⟨other, -, rfl⟩ := List.mem_map.mp member
          rfl

end Release

/-! ## Two processes -/

end Symbols
end EbpfHub
