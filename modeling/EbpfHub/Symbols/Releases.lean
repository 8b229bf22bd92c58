import EbpfHub.Symbols.Attribution
import EbpfHub.Symbols.Failures

/-!
# What a failed load leaves behind

A load that fails after the file was opened releases the fields of its dso, and
the dso stays in the list: the next lookup in it reads what has been released,
and the release of the list releases it again.  Where no load fails so, the dsos
keep everything but their tables over every sequence of lookups.
-/

namespace EbpfHub
namespace Symbols

open Foundations

/-! ## Lookups and the release -/

/-- Calls of `syms__map_addr_dso`, one after the other. -/
def mapAddrs
    (system : System)
    (qsort : Qsort)
    (syms : Syms)
    (addrs : List U64) : Except Fault Syms :=
  addrs.foldlM (fun syms addr => (mapAddrDso system qsort syms addr).map Prod.fst) syms

/-- `syms__free`. -/
def symsFree (syms : Syms) : Except Fault Syms := syms.mapM Dso.freeFields

/-- The load of the symbols of the dso returns an error. -/
def Dso.LoadFails (system : System) (qsort : Qsort) (dso : Dso) : Prop :=
  ∃ failed, loadSymTableFromElf system qsort (dso.file system) dso = .error (.failed failed)

/-! ## The dsos between lookups -/

/-- The dso is the original with another table, and without any if the load of
the original fails. -/
structure Dso.Keeps (system : System) (qsort : Qsort) (original current : Dso) : Prop where
  same : current = { original with syms := current.syms }
  unloaded : original.LoadFails system qsort → current.syms = none

namespace Dso.Keeps

variable {system : System} {qsort : Qsort} {original current : Dso}

theorem refl (fresh : original.Fresh) : original.Keeps system qsort original :=
  ⟨rfl, fun _ => fresh.unloaded⟩

theorem namePointer (keeps : original.Keeps system qsort current) :
    current.namePointer = original.namePointer := by
  rw [keeps.same]
  rfl

theorem ranges (keeps : original.Keeps system qsort current) :
    current.ranges = original.ranges := by
  rw [keeps.same]

theorem alive
    (keeps : original.Keeps system qsort current)
    (fresh : original.Fresh) :
    current.released = false := by
  rw [keeps.same]
  exact fresh.alive

theorem offsetOf
    (keeps : original.Keeps system qsort current)
    (range : LoadRange)
    (addr : U64) :
    current.offsetOf range addr = original.offsetOf range addr := by
  rw [keeps.same]
  rfl

/-- A dso without a table is the original. -/
theorem eq_of_unloaded
    (keeps : original.Keeps system qsort current)
    (fresh : original.Fresh)
    (unloaded : current.syms = none) :
    current = original := by
  rw [keeps.same, unloaded, ← fresh.unloaded]

end Dso.Keeps

/-- The dsos of a list are those of another with other tables. -/
abbrev Syms.Keep (system : System) (qsort : Qsort) (originals currents : Syms) : Prop :=
  List.Forall₂ (Dso.Keeps system qsort) originals currents

section Lookups

variable {system : System} {qsort : Qsort}

/-- The search for an address finds the same dso in both lists, or none in
either. -/
theorem findDso_of_keep
    {originals currents : Syms}
    (keep : Syms.Keep system qsort originals currents)
    (fresh : ∀ dso ∈ originals, dso.Fresh)
    (addr : U64)
    (i : Nat) :
    (findDso addr i originals = .ok none ∧ findDso addr i currents = .ok none) ∨
      ∃ j original current offset, originals[j]? = some original ∧ currents[j]? = some current ∧
        original.Keeps system qsort current ∧
        findDso addr i originals = .ok (some (i + j, original, offset)) ∧
        findDso addr i currents = .ok (some (i + j, current, offset)) := by
  induction keep generalizing i with
  | nil => exact .inl ⟨rfl, rfl⟩
  | @cons original current originals currents keeps _ inductionHypothesis =>
      obtain ⟨first, others⟩ := List.forall_mem_cons.mp fresh
      have readable : ∀ dso : Dso, dso.released = false →
          ¬(dso.released = true ∧ dso.ranges ≠ []) :=
        fun dso alive => not_and_of_not_left _ (ne_true_of_eq_false alive)
      unfold findDso
      rw [if_neg (readable original first.alive), if_neg (readable current (keeps.alive first)),
        keeps.ranges]
      cases original.ranges.find? (·.inside addr) with
      | some range =>
          refine .inr ⟨0, original, current, original.offsetOf range addr, rfl, rfl, keeps, rfl, ?_⟩
          dsimp only
          rw [keeps.offsetOf]
          rfl
      | none =>
          rcases inductionHypothesis others (i + 1) with missing | ⟨j, found⟩
          · exact .inl missing
          · refine .inr ⟨j + 1, ?_⟩
            rwa [show i + (j + 1) = i + 1 + j by omega]

/-- A lookup of an offset in a dso that keeps the original leaves a dso that
does, and finds no symbol if the load of the original fails; or it stops with a
fault, and that load does not fail. -/
theorem findSym_of_keeps
    {original current : Dso}
    (keeps : original.Keeps system qsort current)
    (fresh : original.Fresh)
    (completes : ∀ elf, original.file system = some elf →
      ¬elf.FailsMidway system original)
    (offset : U64) :
    (∃ fault, original.LoadFault fault ∧ findSym system qsort current offset = .error fault ∧
        ¬original.LoadFails system qsort) ∨
      ∃ next result, findSym system qsort current offset = .ok (next, result) ∧
        original.Keeps system qsort next ∧
        (original.LoadFails system qsort → result = none) := by
  unfold findSym
  cases unloaded : current.syms with
  | some table =>
      have loads : ¬original.LoadFails system qsort := by
        intro fails
        rw [keeps.unloaded fails] at unloaded
        cases unloaded
      obtain ⟨syms, result, search⟩ := exists_searchSyms (keeps.alive fresh) offset
      refine .inr ⟨_, result, search, ⟨?_, fun fails => absurd fails loads⟩,
        fun fails => absurd fails loads⟩
      rw [keeps.same]
  | none =>
      -- every lookup in a dso without a table loads its file again
      obtain rfl := keeps.eq_of_unloaded fresh unloaded
      dsimp only
      rw [loadSymTable_eq system qsort fresh.alive]
      cases opened : current.file system with
      | none => exact .inr ⟨current, none, rfl, keeps, fun _ => rfl⟩
      | some elf =>
          by_cases clean : elf.LoadsCleanly system current
          · have load := loadSymTableFromElf_clean qsort fresh clean
            have loads : ¬current.LoadFails system qsort := by
              rintro ⟨failed, fails⟩
              rw [opened, load] at fails
              cases fails
            rw [load]
            obtain ⟨syms, result, search⟩ :=
              @exists_searchSyms (current.loaded qsort elf) fresh.alive offset
            exact .inr ⟨_, result, search, ⟨rfl, fun fails => absurd fails loads⟩,
              fun fails => absurd fails loads⟩
          · rcases loadSymTableFromElf_unclean qsort fresh clean with
              ⟨fault, kind, stops⟩ | ⟨taken, fails⟩
            · rw [stops]
              refine .inl ⟨fault, kind, rfl, ?_⟩
              rintro ⟨failed, fails⟩
              rw [opened, stops] at fails
              cases fails
            · exact absurd ((loadSymTableFromElf_fails_iff qsort fresh).mp ⟨_, fails⟩)
                (completes elf opened)

/-- A dso that keeps an original can be put in its place. -/
theorem Syms.Keep.set
    {originals currents : Syms}
    (keep : Syms.Keep system qsort originals currents)
    {j : Nat}
    {original next : Dso}
    (here : originals[j]? = some original)
    (keeps : original.Keeps system qsort next) :
    Syms.Keep system qsort originals (currents.set j next) := by
  induction keep generalizing j with
  | nil => exact .nil
  | cons first rest inductionHypothesis =>
      cases j with
      | zero =>
          obtain rfl := Option.some.inj here
          exact .cons keeps rest
      | succ j => exact .cons first (inductionHypothesis here)

/-- A lookup of an address leaves dsos that keep the originals, and reports the
name of the dso and no symbol if the load of the dso that the address is in
fails; or it stops with a fault, and that load does not fail. -/
theorem mapAddrDso_of_keep
    {originals currents : Syms}
    (keep : Syms.Keep system qsort originals currents)
    (fresh : ∀ dso ∈ originals, dso.Fresh)
    (completes : ∀ dso ∈ originals, ∀ elf, dso.file system = some elf →
      ¬elf.FailsMidway system dso)
    (addr : U64) :
    (∃ fault, (∃ dso ∈ originals, dso.LoadFault fault) ∧
        mapAddrDso system qsort currents addr = .error fault ∧
        ∀ i dso offset, findDso addr 0 originals = .ok (some (i, dso, offset)) →
          ¬dso.LoadFails system qsort) ∨
      ∃ nexts sinfo, mapAddrDso system qsort currents addr = .ok (nexts, sinfo) ∧
        Syms.Keep system qsort originals nexts ∧
        ∀ i dso offset, findDso addr 0 originals = .ok (some (i, dso, offset)) →
          dso.LoadFails system qsort →
            ∃ info, sinfo = some info ∧ info.dsoName = dso.namePointer ∧ info.symName = none := by
  unfold mapAddrDso
  rcases findDso_of_keep keep fresh addr 0 with
    ⟨missing, none⟩ | ⟨j, original, current, offset, here, -, keeps, found, search⟩
  · rw [none]
    refine .inr ⟨currents, .none, rfl, keep, fun i dso offset found => ?_⟩
    rw [missing] at found
    cases found
  · have member : original ∈ originals := List.mem_of_getElem? here
    rw [search]
    dsimp only
    rw [Nat.zero_add] at found ⊢
    rcases findSym_of_keeps keeps (fresh _ member) (completes _ member) offset with
      ⟨fault, kind, stops, loads⟩ | ⟨next, result, lookup, kept, unnamed⟩
    · rw [stops]
      refine .inl ⟨fault, ⟨original, member, kind⟩, rfl, fun i dso offset same => ?_⟩
      rw [found] at same
      cases same
      exact loads
    · rw [lookup]
      refine .inr ⟨_, _, rfl, keep.set here kept, fun i dso offset same fails => ?_⟩
      rw [found] at same
      cases same
      refine ⟨_, rfl, ?_, ?_⟩
      · dsimp only
        rw [if_neg (ne_true_of_eq_false (kept.alive (fresh _ member))), kept.namePointer]
      · dsimp only
        rw [unnamed fails]
        rfl

/-- The dsos are kept over every sequence of lookups. -/
theorem mapAddrs_keep
    {originals middle : Syms}
    (fresh : ∀ dso ∈ originals, dso.Fresh)
    (completes : ∀ dso ∈ originals, ∀ elf, dso.file system = some elf →
      ¬elf.FailsMidway system dso)
    {addrs : List U64}
    (reaches : mapAddrs system qsort originals addrs = .ok middle) :
    Syms.Keep system qsort originals middle := by
  refine foldlM_invariant (Syms.Keep system qsort originals) ?_ reaches ?_
  · intro currents addr nexts step keep
    rcases mapAddrDso_of_keep keep fresh completes addr with
      ⟨fault, -, stops, -⟩ | ⟨following, sinfo, lookup, kept, -⟩
    · rw [stops] at step
      cases step
    · rw [lookup] at step
      cases step
      exact kept
  · exact List.forall₂_same.mpr fun dso member => .refl (fresh dso member)

/-- A sequence of lookups ends early only with a fault of the load of a dso. -/
theorem loadFault_of_mapAddrs
    {originals : Syms}
    (fresh : ∀ dso ∈ originals, dso.Fresh)
    (completes : ∀ dso ∈ originals, ∀ elf, dso.file system = some elf →
      ¬elf.FailsMidway system dso)
    {addrs : List U64}
    {fault : Fault}
    (faults : mapAddrs system qsort originals addrs = .error fault) :
    ∃ dso ∈ originals, dso.LoadFault fault := by
  obtain ⟨before, addr, after, middle, -, reaches, step⟩ := foldlM_eq_error_iff.mp faults
  have keep := mapAddrs_keep fresh completes reaches
  rcases mapAddrDso_of_keep keep fresh completes addr with
    ⟨other, kind, stops, -⟩ | ⟨_, _, lookup, -, -⟩
  · rw [stops] at step
    cases step
    exact kind
  · rw [lookup] at step
    cases step

/-- Dsos that keep fresh ones are released, each once. -/
theorem symsFree_of_keep
    {originals currents : Syms}
    (keep : Syms.Keep system qsort originals currents)
    (fresh : ∀ dso ∈ originals, dso.Fresh) :
    symsFree currents = .ok (currents.map fun dso => { dso with released := true }) := by
  unfold symsFree
  induction keep with
  | nil => rfl
  | cons keeps _ inductionHypothesis =>
      obtain ⟨first, others⟩ := List.forall_mem_cons.mp fresh
      rw [List.mapM_cons, Dso.freeFields, if_neg (ne_true_of_eq_false (keeps.alive first)),
        inductionHypothesis others]
      rfl

end Lookups

/-! ## Whether a failed load leaves its dso usable -/

/-- A load that fails leaves the name, the ranges and the type of its dso, and
no table.  So no sequence of lookups reads or releases what has been released;
after every sequence, a lookup in the ranges of a dso whose load fails reports
the name of the dso and no symbol, and the release of the list releases every
dso once. -/
structure LeavesUsable (system : System) (qsort : Qsort) (syms : Syms) : Prop where
  unchanged : ∀ dso ∈ syms, ∀ failed,
    loadSymTableFromElf system qsort (dso.file system) dso = .error (.failed failed) →
      failed.namePointer = dso.namePointer ∧ failed.ranges = dso.ranges ∧
        failed.type = dso.type ∧ failed.syms = none ∧ failed.released = false
  safe : ∀ addrs, mapAddrs system qsort syms addrs ≠ .error .readReleased ∧
    mapAddrs system qsort syms addrs ≠ .error .releaseTwice
  named : ∀ addrs middle, mapAddrs system qsort syms addrs = .ok middle →
    ∀ addr i dso offset, findDso addr 0 syms = .ok (some (i, dso, offset)) →
      dso.LoadFails system qsort →
        ∃ final sinfo, mapAddrDso system qsort middle addr = .ok (final, some sinfo) ∧
          sinfo.dsoName = dso.namePointer ∧ sinfo.symName = none
  freed : ∀ addrs middle, mapAddrs system qsort syms addrs = .ok middle →
    ∃ final, symsFree middle = .ok final ∧ ∀ dso ∈ final, dso.released = true

/-- A load that does not fail midway fails only for want of a file. -/
theorem file_eq_none_of_loadFails
    {system : System}
    {qsort : Qsort}
    {dso failed : Dso}
    (fresh : dso.Fresh)
    (completes : ∀ elf, dso.file system = some elf → ¬elf.FailsMidway system dso)
    (fails : loadSymTableFromElf system qsort (dso.file system) dso =
      .error (.failed failed)) :
    dso.file system = none := by
  cases opened : dso.file system with
  | none => rfl
  | some elf =>
      rw [opened] at fails
      exact absurd ((loadSymTableFromElf_fails_iff qsort fresh).mp ⟨_, fails⟩)
        (completes elf opened)

/-- Failed loads leave their dsos usable exactly when no load fails after its
file was opened. -/
theorem failed_load_leaves_usable_iff
    (system : System)
    (qsort : Qsort)
    {syms : Syms}
    (fresh : ∀ dso ∈ syms, dso.Fresh) :
    LeavesUsable system qsort syms ↔
      ∀ dso ∈ syms, ∀ elf, dso.file system = some elf → ¬elf.FailsMidway system dso := by
  constructor
  · intro usable dso member elf opened midway
    have freshDso := fresh dso member
    obtain ⟨failed, fails⟩ := (loadSymTableFromElf_fails_iff qsort freshDso).mpr midway
    have alive : failed.released = false := by
      refine (usable.unchanged dso member failed ?_).2.2.2.2
      rw [opened]
      exact fails
    have released := released_of_loadSymTableFromElf qsort freshDso fails
    rw [alive] at released
    cases released
  · intro completes
    refine ⟨?_, ?_, ?_, ?_⟩
    · intro dso member failed fails
      have missing := file_eq_none_of_loadFails (fresh dso member) (completes dso member) fails
      rw [missing] at fails
      cases fails
      exact ⟨rfl, rfl, rfl, (fresh dso member).unloaded, (fresh dso member).alive⟩
    · intro addrs
      constructor
      · intro reads
        obtain ⟨dso, -, zero | ⟨-, null⟩⟩ := loadFault_of_mapAddrs fresh completes reads
        · cases zero
        · cases null
      · intro releases
        obtain ⟨dso, -, zero | ⟨-, null⟩⟩ := loadFault_of_mapAddrs fresh completes releases
        · cases zero
        · cases null
    · intro addrs middle reaches addr i dso offset found fails
      have keep := mapAddrs_keep fresh completes reaches
      rcases mapAddrDso_of_keep keep fresh completes addr with
        ⟨-, -, -, loads⟩ | ⟨final, sinfo, lookup, -, names⟩
      · exact absurd fails (loads i dso offset found)
      · obtain ⟨info, rfl, named, unnamed⟩ := names i dso offset found fails
        exact ⟨final, info, lookup, named, unnamed⟩
    · intro addrs middle reaches
      have keep := mapAddrs_keep fresh completes reaches
      refine ⟨_, symsFree_of_keep keep fresh, fun dso member => ?_⟩
      obtain ⟨other, -, rfl⟩ := List.mem_map.mp member
      rfl

/-! ## A load that fails -/

/-- A process with one executable, whose symbol table is no sequence of
entries. -/
def brokenFile : System := oneFile ['a'] (oneBlock 24 25)

/-- The executable, mapped from 0x1000 to 0x2000. -/
def brokenSyms : Syms := [execDso ['a'] [⟨0x1000, 0x2000, 0⟩]]

theorem brokenSyms_fresh : ∀ dso ∈ brokenSyms, dso.Fresh := by
  intro dso member
  obtain rfl := List.mem_singleton.mp member
  exact ⟨rfl, rfl⟩

/-- Two executables, of which the file of the second cannot be opened. -/
def missingSyms : Syms :=
  [execDso ['a'] [⟨0x1000, 0x2000, 0⟩], execDso ['b'] [⟨0x3000, 0x4000, 0⟩]]

/-- The load for want of a file leaves its dso usable. -/
theorem failed_load_leaves_usable_iff_missing :
    LeavesUsable (oneFile ['a'] (oneBlock 24 48)) .insertion missingSyms := by
  refine (failed_load_leaves_usable_iff (oneFile ['a'] (oneBlock 24 48)) .insertion ?_).mpr ?_
  · intro dso member
    rcases List.mem_pair.mp member with rfl | rfl
    · exact ⟨rfl, rfl⟩
    · exact ⟨rfl, rfl⟩
  · intro dso member elf opened
    rcases List.mem_pair.mp member with rfl | rfl
    · obtain rfl := Option.some.inj opened
      intro midway
      obtain ⟨failed, fails⟩ := (loadSymTableFromElf_fails_iff .insertion ⟨rfl, rfl⟩).mpr midway
      cases fails
    · cases opened

/-- The second lookup of an address of the executable reads the ranges that the
failed load has released. -/
theorem broken_not_usable :
    (∀ dso ∈ brokenSyms, dso.Fresh) ∧
      mapAddrs brokenFile .insertion brokenSyms [0x1800, 0x1800] = .error .readReleased ∧
      ¬LeavesUsable brokenFile .insertion brokenSyms := by
  have reads : mapAddrs brokenFile .insertion brokenSyms [0x1800, 0x1800] =
      .error .readReleased := rfl
  exact ⟨brokenSyms_fresh, reads, fun usable => (usable.safe _).1 reads⟩

end Symbols
end EbpfHub
