import EbpfHub.Symbols.Naming

/-!
# The search for a symbol as a linear search

The loop of `dso__find_sym` computes with the `int` of C and reads the table at
its midpoints.  It stays within both, and what the call returns is what a scan
of the whole table finds: the entry with the greatest index that does not start
above the offset.
-/

namespace EbpfHub
namespace Symbols

open Foundations

/-- The values of an `int`. -/
def fitsInt (value : Int) : Bool := -2 ^ 31 ≤ value && value < 2 ^ 31

/-- The loop of `dso__find_sym` with the `int` of C: the values of `start` and
`end` after it.  It has no result when it reads outside the table, when a value
that it computes is no `int`, or when it goes on for longer than the table. -/
def findSymLoop (syms : List Sym) (offset : U64) : Option (Int × Int) :=
  machineBisect fitsInt (readBelow (fun sym : Sym => sym.start ≤ offset) syms)
    syms.length 0 (syms.length - 1)

/-- The dso after a scan of its whole table for the offset, and what the scan
finds: the entry with the greatest index whose start is not above the offset,
if the offset is below its start plus its size. -/
def Dso.linearSearch (dso : Dso) (offset : U64) : Dso × Option Sym :=
  match lastBelow (fun sym : Sym => sym.start ≤ offset) dso.table with
  | none => (dso, none)
  | some index =>
      match dso.table[index]? with
      | none => (dso, none)
      | some sym =>
          if offset < sym.start + sym.size then
            ({ dso with
                syms := some (dso.table.set index { sym with offset := offset - sym.start }) },
              some { sym with offset := offset - sym.start })
          else (dso, none)

/-- The dso with its table, which is loaded if it has none. -/
def Dso.Loads (system : System) (qsort : Qsort) (dso loaded : Dso) : Prop :=
  if dso.syms = none then loadSymTable system qsort dso = .ok loaded
  else loaded = dso

/-- The loop over a table of fewer than 2^31 symbols computes the values of the
search over the integers. -/
theorem findSymLoop_eq
    {syms : List Sym}
    (few : syms.length < 2 ^ 31)
    (offset : U64) :
    findSymLoop syms offset = bisectList (fun sym : Sym => sym.start ≤ offset) syms := by
  refine machineBisect_eq _ _ (le_refl 0) (Int.sub_one_lt_of_le (le_refl _)) ?_
  intro value nonneg atMost
  unfold fitsInt
  rw [Bool.and_eq_true, decide_eq_true_iff, decide_eq_true_iff]
  omega

/-- The search in a table that is sorted by start is the linear search. -/
theorem searchSyms_eq_linearSearch
    {dso : Dso}
    (alive : dso.released = false)
    (sorted : dso.table.Pairwise fun s1 s2 => s1.start ≤ s2.start)
    (offset : U64) :
    searchSyms dso offset = .ok (dso.linearSearch offset) := by
  unfold searchSyms
  rw [if_neg (not_and_of_not_left _ (ne_true_of_eq_false alive))]
  by_cases empty : dso.table = []
  · have nothing : lastBelow (fun sym : Sym => sym.start ≤ offset) dso.table = none := by
      rw [empty]
      rfl
    rw [Dso.linearSearch, nothing, empty, bisectList_nil]
    rfl
  · have ordered : dso.table.Pairwise fun s1 s2 =>
        decide (s2.start ≤ offset) = true → decide (s1.start ≤ offset) = true := by
      refine sorted.imp fun before below => ?_
      rw [decide_eq_true_iff] at below ⊢
      exact BitVec.le_trans before below
    obtain ⟨found, inside, search, linear⟩ := exists_bisectList_of_lastBelow
      (fun sym : Sym => decide (sym.start ≤ offset)) empty ordered
    have entry : entryAt dso.table (found : Int) = some dso.table[found] := by
      rw [entryAt_natCast, List.getElem?_eq_getElem inside]
    rw [search, Dso.linearSearch, linear]
    dsimp only
    rw [if_pos rfl, entry]
    dsimp only
    unfold Sym.contains
    by_cases starts : dso.table[found].start ≤ offset
    · simp only [starts, decide_true, Bool.true_and, if_true, List.getElem?_eq_getElem inside,
        decide_eq_true_eq, Int.toNat_natCast]
      split
      · rfl
      · rfl
    · simp only [starts, decide_false, Bool.false_and, Bool.false_eq_true, if_false]

/-- For every table of fewer than 2^31 symbols that is sorted by start, the loop
ends within the table and within `int`, at the values with which the call goes
on, and the call returns what the linear search finds. -/
theorem find_sym_is_linear_search
    (system : System)
    (qsort : Qsort)
    {dso loaded : Dso}
    (loads : dso.Loads system qsort loaded)
    (alive : loaded.released = false)
    (sorted : loaded.table.Pairwise fun s1 s2 => s1.start ≤ s2.start)
    (few : loaded.table.length < 2 ^ 31)
    (offset : U64) :
    (∃ stop, findSymLoop loaded.table offset = some stop ∧
        bisectList (fun sym : Sym => sym.start ≤ offset) loaded.table = some stop) ∧
      findSym system qsort dso offset = .ok (loaded.linearSearch offset) := by
  constructor
  · simp only [findSymLoop_eq few, and_self]
    by_cases empty : loaded.table = []
    · rw [empty]
      exact ⟨_, bisectList_nil _⟩
    · obtain ⟨found, search, -⟩ :=
        exists_bisectList (fun sym : Sym => decide (sym.start ≤ offset)) empty
      exact ⟨_, search⟩
  · rw [← searchSyms_eq_linearSearch alive sorted, findSym]
    unfold Dso.Loads at loads
    cases table : dso.syms with
    | none =>
        rw [if_pos table] at loads
        rw [loads]
    | some syms =>
        have loadedBefore : dso.syms ≠ none := by
          rw [table]
          exact Option.some_ne_none _
        rw [if_neg loadedBefore] at loads
        rw [loads]

/-- An object with two symbols of equal start and a third behind them. -/
def threeSymbols : Dso :=
  { execDso "/a".toList [] with
    syms := some [⟨"f".toList, 100, 0, 0⟩, ⟨"g".toList, 100, 20, 0⟩, ⟨"h".toList, 200, 8, 0⟩] }

/-- The offset 107 is found in the second of the symbols that start at 100. -/
theorem find_sym_is_linear_search_duplicates :
    (∃ stop, findSymLoop threeSymbols.table 107 = some stop ∧
        bisectList (fun sym : Sym => sym.start ≤ 107) threeSymbols.table = some stop) ∧
      findSym (oneFile "/a".toList (symtabFile [])) .insertion threeSymbols 107 =
        .ok (threeSymbols.linearSearch 107) :=
  @find_sym_is_linear_search (oneFile "/a".toList (symtabFile [])) .insertion
    threeSymbols threeSymbols rfl rfl (by decide) (by decide) 107

example : (threeSymbols.linearSearch 107).2 = some ⟨"g".toList, 100, 20, 7⟩ := by decide

end Symbols
end EbpfHub
