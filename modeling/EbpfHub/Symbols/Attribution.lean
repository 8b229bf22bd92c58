import EbpfHub.Symbols.Grouping
import Mathlib.Data.List.Pairwise

/-!
# Which mapping an address is attributed to

A lookup finds the mapping that an address lies in, unless the address is its
first, and names the object of the mapping, unless there was no memory for the
name or the load of the object's symbols goes wrong.
-/

namespace EbpfHub
namespace Symbols

open Foundations

/-! ## Addresses in mappings -/

namespace MapsLine

/-- The address is in the range of the line. -/
def Contains (line : MapsLine) (addr : U64) : Prop :=
  line.map.startAddr ≤ addr ∧ addr < line.map.endAddr

instance (line : MapsLine) (addr : U64) : Decidable (line.Contains addr) :=
  inferInstanceAs (Decidable (_ ∧ _))

/-- The line is an executable mapping of a file, and the address is in it. -/
def Covers (line : MapsLine) (addr : U64) : Prop :=
  line.mapped = true ∧ line.Contains addr

instance (line : MapsLine) (addr : U64) : Decidable (line.Covers addr) :=
  inferInstanceAs (Decidable (_ ∧ _))

/-- The offset of an address of the mapping: in the file for a shared object
and the vDSO, the address itself for the others. -/
def dsoOffset (system : System) (line : MapsLine) (addr : U64) : U64 :=
  if objectType system line.name = .dyn ∨ objectType system line.name = .vdso then
    addr - line.map.startAddr + line.map.fileOff +
      ((textScn system line.name).1 - (textScn system line.name).2)
  else addr

end MapsLine

/-- The address ranges of the lines are disjoint. -/
def DisjointRanges (lines : List MapsLine) : Prop :=
  lines.Pairwise fun first second => ∀ addr, ¬(first.Contains addr ∧ second.Contains addr)

/-- Disjoint ranges that contain one address are the range of one line. -/
theorem DisjointRanges.eq_of_contains
    {lines : List MapsLine}
    (disjoint : DisjointRanges lines)
    {first second : MapsLine}
    (inFirst : first ∈ lines)
    (inSecond : second ∈ lines)
    {addr : U64}
    (firstContains : first.Contains addr)
    (secondContains : second.Contains addr) :
    first = second := by
  by_contra different
  have symmetric : Std.Symm fun first second : MapsLine =>
      ∀ addr, ¬(first.Contains addr ∧ second.Contains addr) :=
    ⟨fun _ _ apart addr both => apart addr both.symm⟩
  exact disjoint.forall inFirst inSecond different addr ⟨firstContains, secondContains⟩

/-- The file whose symbols are loaded for the object of a name. -/
def objectFile (system : System) (name : Name) : Option Elf :=
  match objectType system name with
  | .exec | .dyn => system.openElf name
  | .vdso => system.vdsoImage
  | .perfMap | .unknown => none

/-- The object of a name has it if it could be copied. -/
theorem namePointer_objectOf_iff
    {system : System}
    {lines : List MapsLine}
    {name : Name} :
    (objectOf system lines name).namePointer = some name ↔ system.strdupFails name = false := by
  unfold Dso.namePointer objectOf
  cases system.strdupFails name with
  | false => exact iff_of_true rfl rfl
  | true => exact iff_of_false nofun nofun

/-- The object of a name that was copied has the file of that name. -/
theorem file_objectOf
    {system : System}
    {name : Name}
    (copied : system.strdupFails name = false)
    (lines : List MapsLine) :
    (objectOf system lines name).file system = objectFile system name := by
  unfold Dso.file
  rw [namePointer_objectOf_iff.mpr copied]
  rfl

/-- The symbols of the object load as those of any object of its name. -/
theorem loadsCleanly_objectOf_iff
    {system : System}
    {lines : List MapsLine}
    {name : Name}
    {elf : Elf} :
    elf.LoadsCleanly system (objectOf system lines name) ↔
      elf.LoadsCleanly system (Dso.new system name) :=
  ⟨fun clean => ⟨clean.wellSized, clean.room⟩, fun clean => ⟨clean.wellSized, clean.room⟩⟩

/-! ## Finding the object -/

theorem LoadRange.inside_iff {range : LoadRange} {addr : U64} :
    range.inside addr = true ↔ range.start < addr ∧ addr < range.stop := by
  unfold inside
  rw [Bool.not_eq_true', Bool.or_eq_false_iff, decide_eq_false_iff_not, decide_eq_false_iff_not,
    BitVec.not_le, ge_iff_le, BitVec.not_le]

/-- The search through the objects finds a range that the address is inside of,
or there is none. -/
theorem findDso_spec
    {syms : Syms}
    (alive : ∀ dso ∈ syms, dso.released = false)
    (addr : U64)
    (i : Nat) :
    (findDso addr i syms = .ok none ∧
        ∀ dso ∈ syms, ∀ range ∈ dso.ranges, range.inside addr = false) ∨
      ∃ j, ∃ dso ∈ syms, ∃ range ∈ dso.ranges, range.inside addr = true ∧
        findDso addr i syms = .ok (some (j, dso, dso.offsetOf range addr)) := by
  induction syms generalizing i with
  | nil => exact .inl ⟨rfl, fun _ member => (by cases member)⟩
  | cons dso rest inductionHypothesis =>
      obtain ⟨first, others⟩ := List.forall_mem_cons.mp alive
      have readable : ¬(dso.released = true ∧ dso.ranges ≠ []) :=
        not_and_of_not_left _ (ne_true_of_eq_false first)
      unfold findDso
      rw [if_neg readable]
      cases search : dso.ranges.find? (·.inside addr) with
      | some range =>
          have inside : range.inside addr = true :=
            List.find?_some (p := fun range : LoadRange => range.inside addr) search
          exact .inr ⟨i, dso, by simp, range, List.mem_of_find?_eq_some search, inside, rfl⟩
      | none =>
          have outside : ∀ range ∈ dso.ranges, range.inside addr = false := by
            intro range member
            exact Bool.eq_false_iff.mpr (List.find?_eq_none.mp search range member)
          rcases inductionHypothesis others (i + 1) with
            ⟨missing, none⟩ | ⟨j, found, member, range, inRanges, inside, result⟩
          · exact .inl ⟨missing, List.forall_mem_cons.mpr ⟨outside, none⟩⟩
          · exact .inr ⟨j, found, List.mem_cons_of_mem _ member, range, inRanges, inside, result⟩

/-- Among the objects of a file the search finds the mapping that covers the
address, unless the address is its first. -/
theorem Groups.findDso
    {system : System}
    {lines : List MapsLine}
    {syms : Syms}
    (groups : Groups system lines syms)
    (addr : U64) :
    (Symbols.findDso addr 0 syms = .ok none ∧
        ∀ line ∈ lines, line.Covers addr → addr = line.map.startAddr) ∨
      ∃ j, ∃ line ∈ lines, line.Covers addr ∧ addr ≠ line.map.startAddr ∧
        Symbols.findDso addr 0 syms =
          .ok (some (j, objectOf system lines line.name, line.dsoOffset system addr)) := by
  have alive : ∀ dso ∈ syms, dso.released = false := by
    intro dso member
    rw [groups.objects dso member]
    rfl
  rcases findDso_spec alive addr 0 with
    ⟨missing, outside⟩ | ⟨j, dso, member, range, inRanges, inside, found⟩
  · refine .inl ⟨missing, fun line inLines covers => ?_⟩
    by_contra notFirst
    obtain ⟨mapped, low, high⟩ := covers
    obtain ⟨dso, inSyms, named⟩ := List.mem_map.mp
      ((groups.names line.name).mpr ⟨line, inLines, mapped, rfl⟩)
    have inDso : line.map.range ∈ dso.ranges := by
      rw [groups.objects dso inSyms, named]
      refine List.mem_map.mpr ⟨line, ?_, rfl⟩
      refine List.mem_filter.mpr ⟨inLines, ?_⟩
      rw [mapped, decide_eq_true rfl]
      rfl
    have within : line.map.range.inside addr = true :=
      LoadRange.inside_iff.mpr ⟨BitVec.lt_of_le_ne low (Ne.symm notFirst), high⟩
    rw [outside dso inSyms _ inDso] at within
    cases within
  · right
    have object := groups.objects dso member
    rw [object] at inRanges
    obtain ⟨line, inMappings, rfl⟩ := List.mem_map.mp inRanges
    obtain ⟨inLines, isIt⟩ := List.mem_filter.mp inMappings
    rw [Bool.and_eq_true, decide_eq_true_iff] at isIt
    obtain ⟨mapped, named⟩ := isIt
    obtain ⟨above, below⟩ := LoadRange.inside_iff.mp inside
    refine ⟨j, line, inLines, ⟨mapped, BitVec.le_of_lt above, below⟩, ?_, ?_⟩
    · rintro rfl
      exact BitVec.lt_irrefl _ above
    · rw [found, named, ← object, object]
      unfold Dso.offsetOf MapsLine.dsoOffset
      rw [named]
      rfl

/-! ## Naming the object -/

/-- A search in a table that has not been released stays within it. -/
theorem exists_searchSyms
    {dso : Dso}
    (alive : dso.released = false)
    (offset : U64) :
    ∃ syms result, searchSyms dso offset = .ok ({ dso with syms := syms }, result) := by
  unfold searchSyms
  rw [if_neg (not_and_of_not_left _ (ne_true_of_eq_false alive))]
  by_cases empty : dso.table = []
  · refine ⟨dso.syms, none, ?_⟩
    rw [empty, bisectList_nil]
    rfl
  · obtain ⟨found, search, inside, -, -⟩ :=
      exists_bisectList (fun sym : Sym => decide (sym.start ≤ offset)) empty
    rw [search]
    dsimp only
    rw [if_pos rfl, entryAt_natCast, List.getElem?_eq_getElem inside]
    dsimp only
    split
    · exact ⟨_, _, rfl⟩
    · exact ⟨dso.syms, none, rfl⟩

/-- `1000-2000 r-xp 0 8:1 5 /a`. -/
def oneLine : MapsLine where
  startAddr := ⟨"1000".toList, by decide, List.all_eq_true.mp (by decide), by decide⟩
  endAddr := ⟨"2000".toList, by decide, List.all_eq_true.mp (by decide), by decide⟩
  perm := "r-xp".toList
  perm_length := rfl
  perm_visible := by simp [Scanf.isSpace]
  perm_clean := by decide
  fileOff := ⟨"0".toList, by decide, List.all_eq_true.mp (by decide), by decide⟩
  devMajor := ⟨"8".toList, by decide, List.all_eq_true.mp (by decide), by decide⟩
  devMinor := ⟨"1".toList, by decide, List.all_eq_true.mp (by decide), by decide⟩
  inode := ⟨"5".toList, by decide, List.all_eq_true.mp (by decide), by decide⟩
  tail := "/a".toList
  tail_inLine := by simp
  tail_clean := by decide

/-- A process that has mapped one executable file. -/
def oneMapping : System := oneFile "/a".toList (symtabFile nestedEntries)

end Symbols
end EbpfHub
