import Mathlib.Algebra.Order.Ring.Int
import Mathlib.Data.List.Basic

/-!
# Binary search for the last entry below a bound

The search that rounds its midpoint up and moves one of the ends to it: it ends
at the last index whose entry is below the bound, or at the first index where
there is none.
-/

namespace Foundations

/-- The ends of the interval at which the search stops.  `below` reads the
entry at an index; the search has no result when the entry cannot be read or
the fuel runs out. -/
def upperBisect (below : Int → Option Bool) : Nat → Int → Int → Option (Int × Int)
  | 0, first, last => if first < last then none else some (first, last)
  | fuel + 1, first, last =>
      if first < last then
        (below (first + (last - first + 1) / 2)).bind fun isBelow =>
          if isBelow then upperBisect below fuel (first + (last - first + 1) / 2) last
          else upperBisect below fuel first (first + (last - first + 1) / 2 - 1)
      else some (first, last)

/-- An interval of at most one index is searched. -/
theorem upperBisect_of_not_lt
    (below : Int → Option Bool)
    (fuel : Nat)
    {first last : Int}
    (searched : ¬first < last) :
    upperBisect below fuel first last = some (first, last) := by
  cases fuel with
  | zero => exact if_neg searched
  | succ fuel => exact if_neg searched

/-- With enough fuel the search stops at one index.  The entry there is below
the bound unless the lower end has not moved, and the next one is not below it
unless the upper end has not moved. -/
theorem exists_upperBisect
    {below : Int → Option Bool}
    {fuel : Nat}
    {first last : Int}
    (ordered : first ≤ last)
    (enough : last - first ≤ fuel)
    (readable : ∀ index, first < index → index ≤ last → (below index).isSome) :
    ∃ found, upperBisect below fuel first last = some (found, found) ∧
      first ≤ found ∧ found ≤ last ∧
      (found = first ∨ below found = some true) ∧
      (found = last ∨ below (found + 1) = some false) := by
  induction fuel generalizing first last with
  | zero =>
      have single : first = last := by omega
      subst single
      exact ⟨first, upperBisect_of_not_lt below 0 (lt_irrefl _), le_refl _, le_refl _,
        .inl rfl, .inl rfl⟩
  | succ fuel inductionHypothesis =>
      by_cases wide : first < last
      · rw [upperBisect, if_pos wide]
        generalize middle : first + (last - first + 1) / 2 = mid
        have above : first < mid := by omega
        have inside : mid ≤ last := by omega
        obtain ⟨isBelow, read⟩ := Option.isSome_iff_exists.mp (readable mid above inside)
        rw [read, Option.bind_some]
        cases isBelow with
        | true =>
            obtain ⟨found, search, atLeast, atMost, low, high⟩ :=
              inductionHypothesis inside (by omega)
                fun index after => readable index (by omega)
            refine ⟨found, search, by omega, atMost, .inr ?_, high⟩
            rcases low with rfl | low
            · exact read
            · exact low
        | false =>
            obtain ⟨found, search, atLeast, atMost, low, high⟩ :=
              @inductionHypothesis first (mid - 1) (by omega) (by omega)
                fun index after before => readable index after (by omega)
            refine ⟨found, search, atLeast, by omega, low, .inr ?_⟩
            rcases high with rfl | high
            · rwa [sub_add_cancel]
            · exact high
      · have single : first = last := by omega
        subst single
        exact ⟨first, upperBisect_of_not_lt below _ wide, le_refl _, le_refl _,
          .inl rfl, .inl rfl⟩

/-! ## Search in a list -/

/-- The entry of a list at an index, which may lie outside on either side. -/
def entryAt (entries : List α) (index : Int) : Option α :=
  if index < 0 then none else entries[index.toNat]?

@[simp] theorem entryAt_natCast (entries : List α) (index : Nat) :
    entryAt entries (index : Int) = entries[index]? := by
  rw [entryAt, if_neg (by omega), Int.toNat_natCast]

/-- Read the entry of a list at an index and compare it. -/
def readBelow (isBelow : α → Bool) (entries : List α) (index : Int) : Option Bool :=
  (entryAt entries index).map isBelow

@[simp] theorem readBelow_natCast
    (isBelow : α → Bool)
    (entries : List α)
    (index : Nat) :
    readBelow isBelow entries (index : Int) = (entries[index]?).map isBelow := by
  rw [readBelow, entryAt_natCast]

/-- Search a whole list. -/
def bisectList (isBelow : α → Bool) (entries : List α) : Option (Int × Int) :=
  upperBisect (readBelow isBelow entries) entries.length 0 (entries.length - 1)

@[simp] theorem bisectList_nil (isBelow : α → Bool) :
    bisectList isBelow [] = some (0, -1) := rfl

/-- In a list that is not empty the search ends at an index of the list. -/
theorem exists_bisectList
    (isBelow : α → Bool)
    {entries : List α}
    (nonempty : entries ≠ []) :
    ∃ found : Nat, bisectList isBelow entries = some ((found : Int), (found : Int)) ∧
      found < entries.length ∧
      (found = 0 ∨ (entries[found]?).map isBelow = some true) ∧
      (found + 1 = entries.length ∨ (entries[found + 1]?).map isBelow = some false) := by
  have positive : 0 < entries.length := List.length_pos_iff.mpr nonempty
  obtain ⟨found, search, atLeast, atMost, low, high⟩ :=
    @exists_upperBisect (readBelow isBelow entries) entries.length 0 (entries.length - 1)
      (by omega) (by omega) (by
        intro index after before
        obtain ⟨position, rfl⟩ := Int.eq_ofNat_of_zero_le (Int.le_of_lt after)
        have inside : position < entries.length := by omega
        rw [readBelow_natCast, List.getElem?_eq_getElem inside]
        rfl)
  obtain ⟨position, rfl⟩ := Int.eq_ofNat_of_zero_le atLeast
  refine ⟨position, search, by omega, ?_, ?_⟩
  · rcases low with first | low
    · exact .inl (by omega)
    · exact .inr (by rwa [readBelow_natCast] at low)
  · rcases high with last | high
    · exact .inl (by omega)
    · refine .inr ?_
      have next : (position : Int) + 1 = ((position + 1 : Nat) : Int) := by omega
      rwa [next, readBelow_natCast] at high

/-- In a list where an entry after one that is not below the bound is not below
it either, the search ends at the last entry below it, or finds that there is
none. -/
theorem exists_bisectList_of_pairwise
    (isBelow : α → Bool)
    {entries : List α}
    (nonempty : entries ≠ [])
    (ordered : entries.Pairwise fun x y => isBelow y = true → isBelow x = true) :
    ∃ (found : Nat) (inside : found < entries.length),
      bisectList isBelow entries = some ((found : Int), (found : Int)) ∧
      (∀ later (within : later < entries.length), found < later → isBelow entries[later] = false) ∧
      (isBelow entries[found] = true ∨ ∀ entry ∈ entries, isBelow entry = false) := by
  obtain ⟨found, search, inside, low, high⟩ := exists_bisectList isBelow nonempty
  have orderedAt : ∀ earlier later (within : later < entries.length) (before : earlier < later),
      isBelow entries[later] = true → isBelow entries[earlier] = true :=
    fun earlier later within before => List.pairwise_iff_getElem.mp ordered earlier later
      (Nat.lt_trans before within) within before
  have above : ∀ later (within : later < entries.length), found < later →
      isBelow entries[later] = false := by
    intro later within after
    rcases high with last | next
    · omega
    · have inList : found + 1 < entries.length := by omega
      rw [List.getElem?_eq_getElem inList, Option.map_some, Option.some_inj] at next
      rcases Nat.lt_or_eq_of_le (Nat.succ_le_of_lt after) with beyond | same
      · refine Bool.eq_false_iff.mpr fun isIt => ?_
        have contra := orderedAt (found + 1) later within beyond isIt
        rw [next] at contra
        cases contra
      · subst same
        exact next
  refine ⟨found, inside, search, above, ?_⟩
  rw [List.getElem?_eq_getElem inside, Option.map_some, Option.some_inj] at low
  cases value : isBelow entries[found] with
  | true => exact .inl rfl
  | false =>
      refine .inr fun entry member => ?_
      obtain ⟨index, within, rfl⟩ := List.mem_iff_getElem.mp member
      rcases Nat.eq_zero_or_pos index with rfl | positive
      · rcases low with rfl | low
        · exact value
        · rw [value] at low
          cases low
      · refine above index within ?_
        rcases low with rfl | low
        · exact positive
        · rw [value] at low
          cases low

/-! ## The linear search -/

/-- The greatest index whose entry is below the bound. -/
def lastBelow (isBelow : α → Bool) : List α → Option Nat
  | [] => none
  | entry :: entries =>
      match lastBelow isBelow entries with
      | some index => some (index + 1)
      | none => if isBelow entry then some 0 else none

/-- There is no such index where no entry is below the bound. -/
theorem lastBelow_eq_none_iff {isBelow : α → Bool} {entries : List α} :
    lastBelow isBelow entries = none ↔ ∀ entry ∈ entries, isBelow entry = false := by
  induction entries with
  | nil => simp [lastBelow]
  | cons entry entries inductionHypothesis =>
      rw [lastBelow, List.forall_mem_cons, ← inductionHypothesis]
      cases lastBelow isBelow entries with
      | none => simp
      | some index => simp

/-- The index is the one of an entry below the bound behind which no entry is
below it. -/
theorem lastBelow_eq_some_iff
    {isBelow : α → Bool}
    {entries : List α}
    {index : Nat} :
    lastBelow isBelow entries = some index ↔
      ∃ inside : index < entries.length, isBelow entries[index] = true ∧
        ∀ later (within : later < entries.length), index < later →
          isBelow entries[later] = false := by
  induction entries generalizing index with
  | nil => simp [lastBelow]
  | cons entry entries inductionHypothesis =>
      rw [lastBelow]
      constructor
      · intro result
        split at result
        · next previous found =>
          obtain rfl := Option.some.inj result
          obtain ⟨inside, isIt, above⟩ := inductionHypothesis.mp found
          refine ⟨Nat.succ_lt_succ inside, isIt, ?_⟩
          rintro (_ | later) within after
          · omega
          · exact above later (Nat.lt_of_succ_lt_succ within) (Nat.lt_of_succ_lt_succ after)
        · next missing =>
          split at result
          · next isIt =>
            obtain rfl := Option.some.inj result
            refine ⟨Nat.zero_lt_succ _, isIt, ?_⟩
            rintro (_ | later) within after
            · omega
            · exact lastBelow_eq_none_iff.mp missing _ (List.getElem_mem _)
          · cases result
      · rintro ⟨inside, isIt, above⟩
        cases index with
        | zero =>
            have missing : lastBelow isBelow entries = none := by
              rw [lastBelow_eq_none_iff]
              intro other member
              obtain ⟨later, within, rfl⟩ := List.mem_iff_getElem.mp member
              exact above (later + 1) (Nat.succ_lt_succ within) (Nat.succ_pos _)
            have first : isBelow entry = true := isIt
            rw [missing]
            exact if_pos first
        | succ index =>
            have found : lastBelow isBelow entries = some index := by
              refine inductionHypothesis.mpr ⟨Nat.lt_of_succ_lt_succ inside, isIt, ?_⟩
              intro later within after
              exact above (later + 1) (Nat.succ_lt_succ within) (Nat.succ_lt_succ after)
            rw [found]

/-- In an ordered list the search ends at the index of the linear search, or at
an entry that is not below the bound when that finds none. -/
theorem exists_bisectList_of_lastBelow
    (isBelow : α → Bool)
    {entries : List α}
    (nonempty : entries ≠ [])
    (ordered : entries.Pairwise fun x y => isBelow y = true → isBelow x = true) :
    ∃ (found : Nat) (inside : found < entries.length),
      bisectList isBelow entries = some ((found : Int), (found : Int)) ∧
        lastBelow isBelow entries = if isBelow entries[found] then some found else none := by
  obtain ⟨found, inside, search, above, low⟩ :=
    exists_bisectList_of_pairwise isBelow nonempty ordered
  refine ⟨found, inside, search, ?_⟩
  rcases low with isIt | noneBelow
  · rw [if_pos isIt]
    exact lastBelow_eq_some_iff.mpr ⟨inside, isIt, above⟩
  · have notBelow : isBelow entries[found] = false := noneBelow _ (List.getElem_mem inside)
    rw [if_neg (by simp [notBelow])]
    exact lastBelow_eq_none_iff.mpr noneBelow

/-! ## The integers of a machine -/

/-- The search with the integers of a machine: it has no result either when a
value that it computes is none of them. -/
def machineBisect (fits : Int → Bool) (below : Int → Option Bool) :
    Nat → Int → Int → Option (Int × Int)
  | 0, first, last => if first < last then none else some (first, last)
  | fuel + 1, first, last =>
      if first < last then
        if fits (last - first) && fits (last - first + 1) &&
            fits (first + (last - first + 1) / 2) then
          (below (first + (last - first + 1) / 2)).bind fun isBelow =>
            if isBelow then machineBisect fits below fuel (first + (last - first + 1) / 2) last
            else if fits (first + (last - first + 1) / 2 - 1) then
              machineBisect fits below fuel first (first + (last - first + 1) / 2 - 1)
            else none
        else none
      else some (first, last)

/-- No value leaves the integers of the machine if these reach from zero beyond
the upper end. -/
theorem machineBisect_eq
    {fits : Int → Bool}
    (below : Int → Option Bool)
    (fuel : Nat)
    {first last bound : Int}
    (nonneg : 0 ≤ first)
    (atMost : last < bound)
    (enough : ∀ value, 0 ≤ value → value ≤ bound → fits value = true) :
    machineBisect fits below fuel first last = upperBisect below fuel first last := by
  induction fuel generalizing first last with
  | zero => rfl
  | succ fuel inductionHypothesis =>
      by_cases wide : first < last
      · have fitting : (fits (last - first) && fits (last - first + 1) &&
            fits (first + (last - first + 1) / 2)) = true := by
          rw [enough _ (by omega) (by omega), enough _ (by omega) (by omega),
            enough _ (by omega) (by omega)]
          rfl
        have lower : fits (first + (last - first + 1) / 2 - 1) = true :=
          enough _ (by omega) (by omega)
        rw [machineBisect, upperBisect, if_pos wide, if_pos wide, if_pos fitting]
        congr 1
        funext isBelow
        rw [if_pos lower, inductionHypothesis (by omega) atMost,
          inductionHypothesis nonneg (by omega)]
      · rw [machineBisect, upperBisect, if_neg wide, if_neg wide]

end Foundations
