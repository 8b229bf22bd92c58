import EbpfHub.Symbols.Loading
import Mathlib.Data.Char

/-!
# Which symbol names an offset

The search looks at one symbol only: the last one of the sorted table whose
start is not above the offset.
-/

namespace EbpfHub
namespace Symbols

open Foundations

/-! ## The order of the table -/

@[simp] theorem strcmp_self (name : Name) : strcmp name name = 0 := by
  induction name with
  | nil => rfl
  | cons c name inductionHypothesis => rw [strcmp, if_pos rfl, inductionHypothesis]

theorem strcmp_total (first second : Name) :
    strcmp first second ≤ 0 ∨ strcmp second first ≤ 0 := by
  induction first generalizing second with
  | nil =>
      left
      cases second with
      | nil => exact Int.le_refl _
      | cons c second => exact (by decide : (-1 : Int) ≤ 0)
  | cons c first inductionHypothesis =>
      cases second with
      | nil => exact .inr (by decide : (-1 : Int) ≤ 0)
      | cons d second =>
          unfold strcmp
          rcases lt_trichotomy c d with below | same | above
          · left
            rw [if_neg below.ne, if_pos below]
            decide
          · rw [if_pos same, if_pos same.symm]
            exact inductionHypothesis second
          · right
            rw [if_neg above.ne, if_pos above]
            decide

theorem strcmp_trans
    {first second third : Name}
    (front : strcmp first second ≤ 0)
    (back : strcmp second third ≤ 0) :
    strcmp first third ≤ 0 := by
  induction first generalizing second third with
  | nil =>
      cases third with
      | nil => exact Int.le_refl _
      | cons c third => exact (by decide : (-1 : Int) ≤ 0)
  | cons b first inductionHypothesis =>
      cases second with
      | nil => exact absurd front (by decide : ¬(1 : Int) ≤ 0)
      | cons c second =>
          cases third with
          | nil => exact absurd back (by decide : ¬(1 : Int) ≤ 0)
          | cons d third =>
              unfold strcmp at front back ⊢
              split at front
              · next same =>
                subst same
                split at back
                · next same =>
                  rw [if_pos same]
                  exact inductionHypothesis front back
                · next different => rwa [if_neg different]
              · split at front
                · next below =>
                  have under : b < d := by
                    split at back
                    · next same => rwa [← same]
                    · split at back
                      · next above => exact below.trans above
                      · exact absurd back (by decide)
                  rw [if_neg under.ne, if_pos under]
                  decide
                · exact absurd front (by decide)

@[simp] theorem symCmp_self (sym : Sym) : symCmp sym sym = 0 := by
  rw [symCmp, if_pos rfl, strcmp_self]

/-- What comes first in the table does not start later. -/
theorem start_le_of_symCmp
    {s1 s2 : Sym}
    (ordered : symCmp s1 s2 ≤ 0) :
    s1.start ≤ s2.start := by
  unfold symCmp at ordered
  split at ordered
  · next same => exact BitVec.le_of_eq same
  · split at ordered
    · next below => exact BitVec.le_of_lt below
    · exact absurd ordered (by decide)

theorem symCmp_total (s1 s2 : Sym) : symCmp s1 s2 ≤ 0 ∨ symCmp s2 s1 ≤ 0 := by
  unfold symCmp
  by_cases same : s1.start = s2.start
  · rw [if_pos same, if_pos same.symm]
    exact strcmp_total s1.name s2.name
  · rw [if_neg same, if_neg (Ne.symm same)]
    rcases BitVec.le_total s1.start s2.start with atMost | atLeast
    · left
      rw [if_pos (BitVec.lt_of_le_ne atMost same)]
      decide
    · right
      rw [if_pos (BitVec.lt_of_le_ne atLeast (Ne.symm same))]
      decide

theorem symCmp_trans
    {s1 s2 s3 : Sym}
    (front : symCmp s1 s2 ≤ 0)
    (back : symCmp s2 s3 ≤ 0) :
    symCmp s1 s3 ≤ 0 := by
  have low := start_le_of_symCmp front
  have high := start_le_of_symCmp back
  unfold symCmp at front back ⊢
  by_cases same : s1.start = s3.start
  · have middle : s1.start = s2.start := BitVec.le_antisymm low (same ▸ high)
    rw [if_pos middle] at front
    rw [if_pos (middle.symm.trans same)] at back
    rw [if_pos same]
    exact strcmp_trans front back
  · rw [if_neg same, if_pos (BitVec.lt_of_le_ne (BitVec.le_trans low high) same)]
    decide

/-- An insertion sort is a `qsort`. -/
def Qsort.insertion : Qsort where
  sort := fun syms => syms.insertionSort fun s1 s2 => symCmp s1 s2 ≤ 0
  perm := fun syms => List.perm_insertionSort _ syms
  sorted := by
    intro syms
    have : Std.Total fun s1 s2 => symCmp s1 s2 ≤ 0 := ⟨symCmp_total⟩
    have : IsTrans Sym fun s1 s2 => symCmp s1 s2 ≤ 0 := ⟨fun _ _ _ => symCmp_trans⟩
    exact List.pairwise_insertionSort _ syms

/-! ## The last symbol that is not above an offset -/

/-- The range of the symbol contains the offset. -/
def Sym.Covers (sym : Sym) (offset : U64) : Prop :=
  sym.start.toNat ≤ offset.toNat ∧ offset.toNat < sym.start.toNat + sym.size.toNat

instance (sym : Sym) (offset : U64) : Decidable (sym.Covers offset) :=
  inferInstanceAs (Decidable (_ ∧ _))

/-- The end of the range of the symbol does not wrap around. -/
def Sym.NoWrap (sym : Sym) : Prop := sym.start.toNat + sym.size.toNat < 2 ^ 64

instance (sym : Sym) : Decidable sym.NoWrap := inferInstanceAs (Decidable (_ < _))

/-- The test of the search is the test of the range. -/
theorem Sym.contains_iff
    {sym : Sym}
    (noWrap : sym.NoWrap)
    (offset : U64) :
    sym.contains offset = true ↔ sym.Covers offset := by
  unfold contains Covers
  rw [Bool.and_eq_true, decide_eq_true_iff, decide_eq_true_iff, BitVec.le_def, BitVec.lt_def,
    BitVec.toNat_add_of_lt noWrap]

/-- The symbol as it was loaded, before a search set its offset. -/
def Sym.clear (sym : Sym) : Sym := { sym with offset := 0 }

/-- The symbol is one of the last, in the order of the table, among those whose
start is not above the offset. -/
structure IsLast (symbols : List Sym) (offset : U64) (sym : Sym) : Prop where
  mem : sym ∈ symbols
  start_le : sym.start ≤ offset
  last : ∀ other ∈ symbols, other.start ≤ offset → symCmp other sym ≤ 0

/-- The search finds a symbol that covers the offset and is one of the last,
with its offset set, or there is no last symbol that covers it for sure. -/
structure NamesLast (symbols : List Sym) (offset : U64) (result : Option Sym) : Prop where
  found : ∀ sym, result = some sym →
    ∃ loaded, IsLast symbols offset loaded ∧ loaded.Covers offset ∧
      sym = { loaded with offset := offset - loaded.start }
  missing : result = none →
    (∀ loaded, ¬IsLast symbols offset loaded) ∨
      ∃ loaded, IsLast symbols offset loaded ∧ ¬loaded.Covers offset

/-- The search finds a symbol that covers the offset, with its offset set, or
no symbol covers it. -/
structure NamesCovering (symbols : List Sym) (offset : U64) (result : Option Sym) : Prop where
  found : ∀ sym, result = some sym →
    ∃ loaded ∈ symbols, loaded.Covers offset ∧
      sym = { loaded with offset := offset - loaded.start }
  missing : result = none → ∀ loaded ∈ symbols, ¬loaded.Covers offset

/-! ## The search -/

/-- The dso has not been released, and its table, once it is loaded, is the
sorted list of the symbols. -/
structure Dso.Serves (qsort : Qsort) (symbols : List Sym) (dso : Dso) : Prop where
  alive : dso.released = false
  content : dso.syms = none ∨ dso.table.map Sym.clear = qsort.sort symbols

/-- The symbols are the entries of the table, apart from the offsets. -/
theorem mem_iff_of_content
    {qsort : Qsort}
    {symbols table : List Sym}
    (content : table.map Sym.clear = qsort.sort symbols)
    (sym : Sym) :
    sym ∈ symbols ↔ ∃ entry ∈ table, entry.clear = sym := by
  rw [← (qsort.perm symbols).mem_iff, ← content, List.mem_map]

/-- The table of the symbols is sorted. -/
theorem pairwise_of_content
    {qsort : Qsort}
    {symbols table : List Sym}
    (content : table.map Sym.clear = qsort.sort symbols) :
    table.Pairwise fun s1 s2 => symCmp s1 s2 ≤ 0 := by
  have ordered := qsort.sorted symbols
  rw [← content] at ordered
  exact List.pairwise_map.mp ordered

/-- An entry whose start is not above the offset is one of the last, if all
entries behind it start above the offset. -/
theorem isLast_getElem
    {qsort : Qsort}
    {symbols table : List Sym}
    (content : table.map Sym.clear = qsort.sort symbols)
    {offset : U64}
    {found : Nat}
    (inside : found < table.length)
    (above : ∀ index (within : index < table.length), found < index →
      ¬table[index].start ≤ offset)
    (below : table[found].start ≤ offset) :
    IsLast symbols offset table[found].clear := by
  refine ⟨(mem_iff_of_content content _).mpr ⟨_, List.getElem_mem inside, rfl⟩, below, ?_⟩
  intro other member under
  obtain ⟨entry, inTable, rfl⟩ := (mem_iff_of_content content other).mp member
  obtain ⟨index, within, rfl⟩ := List.mem_iff_getElem.mp inTable
  rcases Nat.lt_trichotomy index found with before | same | after
  · have sorted := List.pairwise_iff_getElem.mp (pairwise_of_content content)
    exact sorted index found within inside before
  · subst same
    exact (symCmp_self _).le
  · exact absurd under (above index within after)

/-- The offset that a search sets does not count. -/
theorem map_clear_set
    {table : List Sym}
    {found : Nat}
    (inside : found < table.length)
    (offset : U64) :
    (table.set found { table[found] with offset := offset }).map Sym.clear =
      table.map Sym.clear := by
  have inMap : found < (table.map Sym.clear).length := by rwa [List.length_map]
  have same : ({ table[found] with offset := offset } : Sym).clear =
      (table.map Sym.clear)[found] := by
    rw [List.getElem_map]
    rfl
  rw [List.map_set, same, List.set_getElem_self]

/-- A range that contains the offset starts at or below it. -/
theorem Sym.start_le_of_contains
    {sym : Sym}
    {offset : U64}
    (contains : sym.contains offset = true) :
    sym.start ≤ offset := by
  unfold Sym.contains at contains
  rw [Bool.and_eq_true, decide_eq_true_iff] at contains
  exact contains.1

/-- A search in the sorted table of the symbols. -/
theorem searchSyms_spec
    {qsort : Qsort}
    {symbols : List Sym}
    {dso : Dso}
    (alive : dso.released = false)
    (content : dso.table.map Sym.clear = qsort.sort symbols)
    (noWrap : ∀ sym ∈ symbols, sym.NoWrap)
    (offset : U64) :
    ∃ syms result, searchSyms dso offset = .ok ({ dso with syms := syms }, result) ∧
      ({ dso with syms := syms } : Dso).Serves qsort symbols ∧
      NamesLast symbols offset result := by
  have members := mem_iff_of_content content
  have unchanged : dso.Serves qsort symbols := ⟨alive, .inr content⟩
  unfold searchSyms
  rw [if_neg (not_and_of_not_left _ (ne_true_of_eq_false alive))]
  by_cases empty : dso.table = []
  · refine ⟨dso.syms, none, ?_, unchanged, ⟨fun _ found => (by cases found), fun _ => ?_⟩⟩
    · rw [empty, bisectList_nil]
      rfl
    · refine .inl fun loaded last => ?_
      obtain ⟨entry, member, -⟩ := (members loaded).mp last.mem
      rw [empty] at member
      cases member
  · have monotone : dso.table.Pairwise fun s1 s2 =>
        decide (s2.start ≤ offset) = true → decide (s1.start ≤ offset) = true := by
      refine (pairwise_of_content content).imp fun ordered below => ?_
      rw [decide_eq_true_iff] at below ⊢
      exact BitVec.le_trans (start_le_of_symCmp ordered) below
    obtain ⟨found, inside, search, above, low⟩ :=
      exists_bisectList_of_pairwise (fun sym : Sym => decide (sym.start ≤ offset)) empty monotone
    have isLast : dso.table[found].start ≤ offset →
        IsLast symbols offset dso.table[found].clear :=
      isLast_getElem content inside fun index within after =>
        of_decide_eq_false (above index within after)
    have entry : entryAt dso.table (found : Int) = some dso.table[found] := by
      rw [entryAt_natCast, List.getElem?_eq_getElem inside]
    have covers := Sym.contains_iff (noWrap _ ((members _).mpr ⟨_, List.getElem_mem inside, rfl⟩))
      offset
    rw [search]
    dsimp only
    rw [if_pos rfl, entry]
    dsimp only
    by_cases contains : dso.table[found].contains offset = true
    · rw [if_pos contains]
      have below := Sym.start_le_of_contains contains
      refine ⟨some (dso.table.set found
          { dso.table[found] with offset := offset - dso.table[found].start }),
        some { dso.table[found] with offset := offset - dso.table[found].start }, rfl,
        ⟨alive, .inr ((map_clear_set inside _).trans content)⟩, ⟨?_, fun missing => ?_⟩⟩
      · rintro _ ⟨⟩
        exact ⟨_, isLast below, covers.mp contains, rfl⟩
      · cases missing
    · rw [if_neg contains]
      refine ⟨dso.syms, none, rfl, unchanged, ⟨fun _ found => (by cases found), fun _ => ?_⟩⟩
      rcases low with below | noneBelow
      · right
        rw [decide_eq_true_iff] at below
        exact ⟨_, isLast below, fun covered => contains (covers.mpr covered)⟩
      · refine .inl fun loaded last => ?_
        obtain ⟨entry, member, rfl⟩ := (members loaded).mp last.mem
        have startsAbove := noneBelow entry member
        rw [decide_eq_false_iff_not] at startsAbove
        exact startsAbove last.start_le

/-! ## Lookups in a dso -/

/-- The file whose symbols are loaded for the dso. -/
def Dso.file (system : System) (dso : Dso) : Option Elf :=
  match dso.type with
  | .exec | .dyn => dso.namePointer.bind system.openElf
  | .vdso => system.vdsoImage
  | .perfMap | .unknown => none

/-- The symbols are loaded from that file, if there is one. -/
theorem loadSymTable_eq
    (system : System)
    (qsort : Qsort)
    {dso : Dso}
    (alive : dso.released = false) :
    loadSymTable system qsort dso =
      loadSymTableFromElf system qsort (dso.file system) dso := by
  have notReleased : ¬dso.released = true := ne_true_of_eq_false alive
  unfold loadSymTable Dso.file
  cases type : dso.type with
  | exec => exact if_neg notReleased
  | dyn => exact if_neg notReleased
  | vdso => rfl
  | perfMap => rfl
  | unknown => rfl

/-- A symbol is loaded with a clear offset. -/
theorem clear_of_mem_symbols
    {elf : Elf}
    {sym : Sym}
    (member : sym ∈ elf.symbols) :
    sym.clear = sym := by
  obtain ⟨scn, -, inScn⟩ := List.mem_flatMap.mp member
  unfold ElfScn.symbols at inScn
  split at inScn
  · cases inScn
  · split at inScn
    · obtain ⟨data, -, inData⟩ := List.mem_flatMap.mp inScn
      obtain ⟨i, -, read⟩ := List.mem_filterMap.mp inData
      obtain ⟨entry, -, named⟩ := Option.bind_eq_some_iff.mp read
      obtain ⟨name, -, kept⟩ := Option.bind_eq_some_iff.mp named
      split at kept
      · cases kept
      · obtain rfl := Option.some.inj kept
        rfl
    · cases inScn

/-- The table of a loaded dso is the sorted list of the symbols of its file. -/
theorem Dso.table_loaded
    (qsort : Qsort)
    (elf : Elf)
    (dso : Dso) :
    (dso.loaded qsort elf).table.map Sym.clear = qsort.sort elf.symbols := by
  have table : (dso.loaded qsort elf).table = qsort.sort elf.symbols := by
    unfold Dso.loaded Dso.table
    dsimp only
    split
    · next empty =>
      have sorted := qsort.perm elf.symbols
      rw [empty] at sorted ⊢
      exact sorted.eq_nil.symm
    · rfl
  rw [table]
  calc
    (qsort.sort elf.symbols).map Sym.clear = (qsort.sort elf.symbols).map id :=
      List.map_congr_left fun sym member =>
        clear_of_mem_symbols ((qsort.perm elf.symbols).mem_iff.mp member)
    _ = qsort.sort elf.symbols := List.map_id _

/-- Whether a file loads for a dso does not depend on the table that it has. -/
theorem Elf.LoadsCleanly.withSyms
    {system : System}
    {dso : Dso}
    {elf : Elf}
    (clean : elf.LoadsCleanly system dso)
    (syms : Option (List Sym)) :
    elf.LoadsCleanly system { dso with syms := syms } :=
  ⟨clean.wellSized, clean.room⟩

/-- A lookup loads the symbols of the file if need be, and searches in them. -/
theorem findSym_spec
    {system : System}
    {qsort : Qsort}
    {dso : Dso}
    {elf : Elf}
    (serves : dso.Serves qsort elf.symbols)
    (opened : dso.file system = some elf)
    (clean : elf.LoadsCleanly system dso)
    (noWrap : ∀ sym ∈ elf.symbols, sym.NoWrap)
    (offset : U64) :
    ∃ syms result, findSym system qsort dso offset = .ok ({ dso with syms := syms }, result) ∧
      ({ dso with syms := syms } : Dso).Serves qsort elf.symbols ∧
      NamesLast elf.symbols offset result := by
  unfold findSym
  cases unloaded : dso.syms with
  | some table =>
      have content : dso.table.map Sym.clear = qsort.sort elf.symbols := by
        rcases serves.content with missing | content
        · rw [unloaded] at missing
          cases missing
        · exact content
      exact searchSyms_spec serves.alive content noWrap offset
  | none =>
      have fresh : dso.Fresh := ⟨unloaded, serves.alive⟩
      have load := loadSymTable_eq system qsort serves.alive
      rw [opened, loadSymTableFromElf_clean qsort fresh clean] at load
      dsimp only
      rw [load]
      exact @searchSyms_spec qsort elf.symbols (dso.loaded qsort elf) serves.alive
        (dso.table_loaded qsort elf) noWrap offset

/-- Lookups of a list of offsets, one after the other. -/
def findSyms
    (system : System)
    (qsort : Qsort)
    (dso : Dso)
    (offsets : List U64) : Except Fault Dso :=
  offsets.foldlM (fun dso offset => (findSym system qsort dso offset).map Prod.fst) dso

/-- Lookups only change the table of a dso, and it goes on serving the symbols
of its file. -/
theorem findSyms_spec
    {system : System}
    {qsort : Qsort}
    {dso : Dso}
    {elf : Elf}
    (serves : dso.Serves qsort elf.symbols)
    (opened : dso.file system = some elf)
    (clean : elf.LoadsCleanly system dso)
    (noWrap : ∀ sym ∈ elf.symbols, sym.NoWrap)
    (offsets : List U64) :
    ∃ syms, findSyms system qsort dso offsets = .ok { dso with syms := syms } ∧
      ({ dso with syms := syms } : Dso).Serves qsort elf.symbols := by
  unfold findSyms
  induction offsets generalizing dso with
  | nil => exact ⟨dso.syms, rfl, serves⟩
  | cons offset offsets inductionHypothesis =>
      obtain ⟨syms, result, lookup, next, -⟩ := findSym_spec serves opened clean noWrap offset
      obtain ⟨final, rest, served⟩ := inductionHypothesis next opened (clean.withSyms syms)
      refine ⟨final, ?_, served⟩
      rw [List.foldlM_cons, lookup]
      exact rest

/-- At every lookup in a dso whose file loads without an error, whatever has
been looked up before, the symbol that is found covers the offset and is one of
the last symbols that do not start above it, with its offset set; and if none
is found, there is no such symbol or one of these does not cover the offset. -/
theorem find_sym_names_last
    (system : System)
    (qsort : Qsort)
    {dso : Dso}
    {elf : Elf}
    (fresh : dso.Fresh)
    (opened : dso.file system = some elf)
    (clean : elf.LoadsCleanly system dso)
    (noWrap : ∀ sym ∈ elf.symbols, sym.NoWrap)
    (earlier : List U64)
    (offset : U64) :
    ∃ before final result, findSyms system qsort dso earlier = .ok before ∧
      findSym system qsort before offset = .ok (final, result) ∧
      NamesLast elf.symbols offset result := by
  have serves : dso.Serves qsort elf.symbols := ⟨fresh.alive, .inl fresh.unloaded⟩
  obtain ⟨syms, run, served⟩ := findSyms_spec serves opened clean noWrap earlier
  obtain ⟨final, result, lookup, -, names⟩ := findSym_spec served opened
    (clean.withSyms syms) noWrap offset
  exact ⟨_, _, result, run, lookup, names⟩

/-! ## A symbol inside another -/

/-- A file with one section of symbols. -/
def symtabFile (entries : List GElfSym) : Elf where
  eType := some etExec
  hasShdrstrndx := true
  sections :=
    [{ header := some
        { name := some ".symtab".toList
          shType := shtSymtab
          shAddr := 0
          shOffset := 0
          shEntsize := 24 }
       data := [{ dSize := 24 * entries.length, getsym := fun i => entries[i]? }] }]

/-- A process with one file, and memory for every symbol. -/
def oneFile (name : Name) (elf : Elf) : System where
  openElf := fun path => if path = name then some elf else none
  vdsoImage := none
  addSymFails := fun _ _ => false

/-- The dso of an executable, before its symbols are loaded. -/
def execDso (name : Name) (ranges : List LoadRange) : Dso where
  name := name
  ranges := ranges
  shAddr := 0
  shOffset := 0
  type := .exec
  syms := none
  released := false

/-- A function from 100 to 200 and another from 120 to 130. -/
def nestedEntries : List GElfSym :=
  [⟨some "outer".toList, 100, 100⟩, ⟨some "inner".toList, 120, 10⟩]

theorem nested_loadsCleanly :
    (symtabFile nestedEntries).LoadsCleanly (oneFile ['a'] (symtabFile nestedEntries))
      (execDso ['a'] []) := by
  refine ⟨?_, fun _ _ => ⟨rfl, rfl⟩⟩
  intro scn member
  obtain rfl := List.mem_singleton.mp member
  intro _ data inData
  obtain rfl := List.mem_singleton.mp inData
  exact ⟨by decide, by decide⟩

/-- The offset 125 is found in the inner of two nested symbols. -/
theorem find_sym_names_last_nested :
    ∃ before final result,
      findSyms (oneFile ['a'] (symtabFile nestedEntries)) .insertion (execDso ['a'] []) [125] =
        .ok before ∧
      findSym (oneFile ['a'] (symtabFile nestedEntries)) .insertion before 125 =
        .ok (final, result) ∧
      NamesLast (symtabFile nestedEntries).symbols 125 result :=
  find_sym_names_last _ _ ⟨rfl, rfl⟩ rfl nested_loadsCleanly (by decide) [125] 125

/-- The offset 150 is inside the outer symbol, and no symbol is found for it. -/
theorem nested_not_named :
    (execDso ['a'] []).Fresh ∧
      (execDso ['a'] []).file (oneFile ['a'] (symtabFile nestedEntries)) =
        some (symtabFile nestedEntries) ∧
      (symtabFile nestedEntries).LoadsCleanly (oneFile ['a'] (symtabFile nestedEntries))
        (execDso ['a'] []) ∧
      (∀ sym ∈ (symtabFile nestedEntries).symbols, sym.NoWrap) ∧
      ¬∀ final result,
        findSym (oneFile ['a'] (symtabFile nestedEntries)) .insertion (execDso ['a'] []) 150 =
          .ok (final, result) →
        NamesCovering (symtabFile nestedEntries).symbols 150 result := by
  refine ⟨⟨rfl, rfl⟩, rfl, nested_loadsCleanly, by decide, fun always => ?_⟩
  have names := always
    ((execDso ['a'] []).loaded .insertion (symtabFile nestedEntries)) none (by decide)
  refine names.missing rfl ⟨"outer".toList, 100, 100, 0⟩ ?_ ?_
  · decide
  · decide

end Symbols
end EbpfHub
