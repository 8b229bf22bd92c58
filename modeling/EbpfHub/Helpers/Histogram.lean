import EbpfHub.Bootstrap.Printer
import Mathlib.Algebra.BigOperators.Ring.Finset
import Mathlib.Data.List.Range
import Mathlib.Data.Nat.Log

/-!
# Histograms

`print_log2_hist` and `print_linear_hist` of `trace_helpers.c` print a line for a
counter of an array, with a bar that shows it beside the greatest one.  The
lines of the first show how many of the counted samples lie between two powers
of two; those of the second are the counters that are not zero.
-/

namespace EbpfHub
namespace Helpers

open Bootstrap

/-! ## The functions -/

/-- `%*lld`, a text that is padded on the left. -/
def indented (width : Nat) (text : List Char) : List Char :=
  List.replicate (width - text.length) ' ' ++ text

/-- The stars of `print_stars`, a product of 32 bits and a quotient. -/
def numStars (val valMax : BitVec 32) (width : Nat) : Int :=
  ((if val < valMax then val else valMax) * BitVec.ofNat 32 width / valMax).toInt

/-- `print_stars`, `none` when it divides by zero. -/
def printStars (val valMax : BitVec 32) (width : Nat) : Option (List Char) :=
  if valMax = 0 then none
  else some (List.replicate (numStars val valMax width).toNat '*' ++
    List.replicate (width - numStars val valMax width : Int).toNat ' ' ++
    if valMax < val then ['+'] else [])

/-- What the first loop of both functions finds: the indices of the first and of
the last counter that is not zero, and the greatest counter. -/
structure Extent where
  idxMin : Int
  idxMax : Int
  valMax : BitVec 32

namespace Extent

/-- Before the first counter. -/
def initial : Extent := ⟨-1, -1, 0⟩

/-- One round of the loop. -/
def see (extent : Extent) (i : Nat) (val : BitVec 32) : Extent where
  idxMin := if 0 < val ∧ extent.idxMin < 0 then i else extent.idxMin
  idxMax := if 0 < val then i else extent.idxMax
  valMax := if extent.valMax < val then val else extent.valMax

end Extent

/-- The first loop of both functions. -/
def extentOf (vals : List (BitVec 32)) : Extent :=
  vals.zipIdx.foldl (fun extent (val, i) => extent.see i val) .initial

/-- The bounds of a line of `print_log2_hist`. -/
def log2Bounds (i : Nat) : BitVec 64 × BitVec 64 :=
  let low := ((1 : BitVec 64) <<< (i + 1)) >>> 1
  let high := ((1 : BitVec 64) <<< (i + 1)) - 1
  (if low = high then low - 1 else low, high)

/-- The width of a bound, which is greater when there are many lines. -/
def boundWidth (idxMax : Int) : Nat := if idxMax ≤ 32 then 10 else 20

/-- The width of a bar. -/
def barWidth (idxMax : Int) : Nat := if idxMax ≤ 32 then 40 else 20

/-- The text of a line of `print_log2_hist`. -/
def log2Text (width : Nat) (low high val : Int) (bar : List Char) : List Char :=
  indented width (decimal low) ++ " -> ".toList ++ padded width (decimal high) ++ " : ".toList ++
    padded 8 (decimal val) ++ " |".toList ++ bar ++ "|\n".toList

/-- A line of `print_log2_hist`, `none` when the number of places that it shifts
by or an index is too large. -/
def log2Line (extent : Extent) (vals : List (BitVec 32)) (i : Nat) : Option (List Char) :=
  if 63 ≤ i then none
  else vals[i]?.bind fun val =>
    (printStars val extent.valMax (barWidth extent.idxMax)).map fun bar =>
      log2Text (boundWidth extent.idxMax) (log2Bounds i).1.toInt (log2Bounds i).2.toInt
        val.toInt bar

/-- The heading of `print_log2_hist`. -/
def log2Heading (idxMax : Int) (valType : List Char) : List Char :=
  List.replicate (if idxMax ≤ 32 then 5 else 15) ' ' ++
    padded (if idxMax ≤ 32 then 19 else 29) valType ++ " : count    distribution\n".toList

/-- `print_log2_hist`: the lines that it prints. -/
def printLog2Hist (vals : List (BitVec 32)) (valType : List Char) : Option (List (List Char)) :=
  let extent := extentOf vals
  if extent.idxMax < 0 then some []
  else ((List.range (extent.idxMax + 1).toNat).mapM (log2Line extent vals)).map fun lines =>
    log2Heading extent.idxMax valType :: lines

/-- The text of a line of `print_linear_hist`. -/
def linearText (label val : Int) (bar : List Char) : List Char :=
  List.replicate 8 ' ' ++ padded 10 (decimal label) ++ " : ".toList ++ padded 8 (decimal val) ++
    " |".toList ++ bar ++ "|\n".toList

/-- One round of the second loop of `print_linear_hist`, which prints no line for
a counter that is zero. -/
def linearLine
    (extent : Extent)
    (vals : List (BitVec 32))
    (base step : BitVec 32)
    (i : Nat) : Option (List (List Char)) :=
  vals[i]?.bind fun val =>
    if val = 0 then some []
    else (printStars val extent.valMax 40).map fun bar =>
      [linearText (base + BitVec.ofNat 32 i * step).toInt val.toInt bar]

/-- `print_linear_hist`: the lines that it prints. -/
def printLinearHist
    (vals : List (BitVec 32))
    (base step : BitVec 32)
    (valType : List Char) : Option (List (List Char)) :=
  let extent := extentOf vals
  if extent.idxMax < 0 then some []
  else ((List.range' extent.idxMin.toNat (extent.idxMax + 1 - extent.idxMin).toNat).mapM
      (linearLine extent vals base step)).map fun lines =>
    ("     ".toList ++ padded 13 valType ++ " : count     distribution\n".toList) :: lines.flatten

/-! ## Bars -/

/-- The stars of a counter that is at most the greatest. -/
def stars (val valMax : BitVec 32) (width : Nat) : Nat :=
  val.toNat * width % 2 ^ 32 / valMax.toNat

/-- Its bar. -/
def bar (val valMax : BitVec 32) (width : Nat) : List Char :=
  List.replicate (stars val valMax width) '*' ++
    List.replicate (width - stars val valMax width) ' '

theorem stars_le
    {val valMax : BitVec 32}
    (positive : 0 < valMax)
    (atMost : val ≤ valMax)
    (width : Nat) :
    stars val valMax width ≤ width := by
  have inhabited : 0 < valMax.toNat := BitVec.lt_def.mp positive
  have product : val.toNat * width % 2 ^ 32 ≤ valMax.toNat * width :=
    (Nat.mod_le _ _).trans (Nat.mul_le_mul_right width (BitVec.le_def.mp atMost))
  exact Nat.div_le_of_le_mul product

@[simp] theorem length_bar
    {val valMax : BitVec 32}
    (positive : 0 < valMax)
    (atMost : val ≤ valMax)
    (width : Nat) :
    (bar val valMax width).length = width := by
  have fits := stars_le positive atMost width
  simp only [bar, List.length_append, List.length_replicate]
  omega

/-- `print_stars` prints the bar of a counter that is at most the greatest. -/
theorem printStars_eq
    {val valMax : BitVec 32}
    {width : Nat}
    (positive : 0 < valMax)
    (atMost : val ≤ valMax)
    (small : width < 2 ^ 31) :
    printStars val valMax width = some (bar val valMax width) := by
  have least : (if val < valMax then val else valMax) = val := by
    split
    · rfl
    · next notBelow => exact BitVec.le_antisymm (BitVec.not_lt.mp notBelow) atMost
  have counted : numStars val valMax width = stars val valMax width := by
    have fits := stars_le positive atMost width
    have quotient : (val * BitVec.ofNat 32 width / valMax).toNat = stars val valMax width := by
      simp [stars, BitVec.toNat_udiv, BitVec.toNat_mul]
    rw [numStars, least, BitVec.toInt_eq_toNat_of_lt (by omega), quotient]
  have nonzero : valMax ≠ 0 := (BitVec.ne_of_lt positive).symm
  have notAbove : ¬ valMax < val := BitVec.not_lt.mpr atMost
  rw [printStars, if_neg nonzero, if_neg notAbove, counted, List.append_nil, Int.toNat_natCast,
    Int.toNat_sub, bar]

/-- The bar of the greatest counter is full unless the product overflows. -/
theorem stars_self_eq_iff
    {valMax : BitVec 32}
    {width : Nat}
    (positive : 0 < valMax) :
    stars valMax valMax width = width ↔ valMax.toNat * width < 2 ^ 32 := by
  have inhabited : 0 < valMax.toNat := BitVec.lt_def.mp positive
  constructor
  · intro full
    by_contra overflows
    have wrapped : valMax.toNat * width % 2 ^ 32 < valMax.toNat * width :=
      (Nat.mod_lt _ (by decide)).trans_le (Nat.not_lt.mp overflows)
    have short : stars valMax valMax width < width := Nat.div_lt_of_lt_mul wrapped
    exact short.ne full
  · intro fits32
    rw [stars, Nat.mod_eq_of_lt fits32, Nat.mul_div_cancel_left width inhabited]

/-- The stars are the share of the counter in the greatest, and more for a
greater counter. -/
theorem stars_eq
    {val valMax : BitVec 32}
    {width : Nat}
    (atMost : val ≤ valMax)
    (fits32 : valMax.toNat * width < 2 ^ 32) :
    stars val valMax width = val.toNat * width / valMax.toNat := by
  have product : val.toNat * width < 2 ^ 32 :=
    (Nat.mul_le_mul_right width (BitVec.le_def.mp atMost)).trans_lt fits32
  rw [stars, Nat.mod_eq_of_lt product]

/-! ## The first loop -/

/-- The counter at an index, zero beyond the array. -/
def counter (vals : List (BitVec 32)) (i : Nat) : BitVec 32 := vals[i]?.getD 0

/-- The counter at an index is not zero. -/
abbrev Counts (vals : List (BitVec 32)) (i : Nat) : Prop := counter vals i ≠ 0

theorem Counts.lt {vals : List (BitVec 32)} {i : Nat} (counts : Counts vals i) :
    i < vals.length := by
  by_contra beyond
  exact counts (by rw [counter, List.getElem?_eq_none (Nat.not_lt.mp beyond), Option.getD_none])

theorem counts_append_iff {vals : List (BitVec 32)} {val : BitVec 32} {i : Nat} :
    Counts (vals ++ [val]) i ↔ Counts vals i ∨ i = vals.length ∧ val ≠ 0 := by
  rcases Nat.lt_trichotomy i vals.length with before | rfl | after
  · simp [counter, List.getElem?_append_left before, before.ne]
  · simp [counter]
  · have beyond : [val].length ≤ i - vals.length := by
      rw [List.length_singleton]
      omega
    simp [counter, List.getElem?_append_right after.le, List.getElem?_eq_none after.le,
      List.getElem?_eq_none beyond, after.ne']

/-- What the first loop knows of the counters that it has seen. -/
structure Extent.Describes (extent : Extent) (vals : List (BitVec 32)) : Prop where
  bound : ∀ val ∈ vals, val ≤ extent.valMax
  reached : extent.valMax = 0 ∨ extent.valMax ∈ vals
  within : ∀ i : Nat, Counts vals i → extent.idxMin ≤ i ∧ i ≤ extent.idxMax
  ends : (extent.idxMin = -1 ∧ extent.idxMax = -1) ∨
    ∃ first last : Nat, extent.idxMin = first ∧ extent.idxMax = last ∧
      Counts vals first ∧ Counts vals last

theorem Extent.Describes.see
    {extent : Extent}
    {vals : List (BitVec 32)}
    (describes : extent.Describes vals)
    (val : BitVec 32) :
    (extent.see vals.length val).Describes (vals ++ [val]) := by
  have zero_iff : 0 < val ↔ val ≠ 0 := by
    simp [BitVec.lt_def, BitVec.toNat_eq, Nat.pos_iff_ne_zero]
  have before : ∀ i, Counts vals i → Counts (vals ++ [val]) i := fun i counts =>
    counts_append_iff.mpr (.inl counts)
  constructor
  · intro other member
    simp only [Extent.see]
    rcases List.mem_append.mp member with old | new
    · have bound := describes.bound other old
      split
      · next above => exact BitVec.le_trans bound (BitVec.le_of_lt above)
      · exact bound
    · rw [List.mem_singleton.mp new]
      split
      · exact BitVec.le_refl val
      · next notAbove => exact BitVec.not_lt.mp notAbove
  · simp only [Extent.see]
    split
    · exact .inr (by simp)
    · exact describes.reached.imp_right (List.mem_append_left [val])
  · intro i counts
    simp only [Extent.see]
    rcases counts_append_iff.mp counts with old | ⟨rfl, nonzero⟩
    · have inside := describes.within i old
      have bounded := old.lt
      have seen : 0 ≤ extent.idxMin := by
        rcases describes.ends with ⟨none, nothing⟩ | ⟨first, -, isFirst, -⟩ <;> omega
      rw [if_neg fun both => by omega]
      exact ⟨inside.1, by split <;> omega⟩
    · rw [if_pos (zero_iff.mpr nonzero)]
      refine ⟨?_, le_rfl⟩
      split
      · exact le_rfl
      · next seen =>
          rcases describes.ends with ⟨none, -⟩ | ⟨first, last, isFirst, -, counted, -⟩
          · exact absurd ⟨zero_iff.mpr nonzero, by omega⟩ seen
          · have bounded := counted.lt
            omega
  · simp only [Extent.see]
    by_cases nonzero : val = 0
    · have notAbove : ¬ 0 < val := fun above => zero_iff.mp above nonzero
      rw [if_neg notAbove, if_neg fun both => notAbove both.1]
      refine describes.ends.imp_right ?_
      rintro ⟨first, last, isFirst, isLast, countsFirst, countsLast⟩
      exact ⟨first, last, isFirst, isLast, before first countsFirst, before last countsLast⟩
    · have new : Counts (vals ++ [val]) vals.length :=
        counts_append_iff.mpr (.inr ⟨rfl, nonzero⟩)
      right
      rcases describes.ends with ⟨none, -⟩ | ⟨first, last, isFirst, isLast, countsFirst, -⟩
      · refine ⟨vals.length, vals.length, if_pos ⟨zero_iff.mpr nonzero, by omega⟩,
          if_pos (zero_iff.mpr nonzero), new, new⟩
      · refine ⟨first, vals.length, ?_, if_pos (zero_iff.mpr nonzero),
          before first countsFirst, new⟩
        rw [if_neg fun both => by omega, isFirst]

theorem extentOf_append (vals : List (BitVec 32)) (val : BitVec 32) :
    extentOf (vals ++ [val]) = (extentOf vals).see vals.length val := by
  simp [extentOf, List.zipIdx_append]

/-- The first loop finds the extent of the counters. -/
theorem extentOf_describes (vals : List (BitVec 32)) : (extentOf vals).Describes vals := by
  induction vals using List.reverseRecOn with
  | nil =>
      refine ⟨by simp, .inl rfl, fun i counts => ?_, .inl ⟨rfl, rfl⟩⟩
      exact absurd counts.lt (Nat.not_lt_zero i)
  | append_singleton vals val inductionHypothesis =>
      rw [extentOf_append]
      exact inductionHypothesis.see val

/-! ## Powers of two -/

/-- The least number of a line. -/
def log2Low (i : Nat) : Nat := if i = 0 then 0 else 2 ^ i

/-- The greatest number of a line. -/
def log2High (i : Nat) : Nat := 2 ^ (i + 1) - 1

theorem log2Bounds_eq {i : Nat} (small : i < 63) :
    (log2Bounds i).1.toInt = log2Low i ∧ (log2Bounds i).2.toInt = log2High i := by
  have power : 2 ^ i ≤ 2 ^ 62 := Nat.pow_le_pow_right (by decide) (by omega)
  have twice : 2 ^ (i + 1) = 2 * 2 ^ i := Nat.pow_succ'
  have shifted : ((1 : BitVec 64) <<< (i + 1)).toNat = 2 * 2 ^ i := by
    rw [BitVec.toNat_shiftLeft, Nat.shiftLeft_eq, ← twice]
    exact (Nat.mod_eq_of_lt (by simp; omega)).trans (by simp)
  have halved : (((1 : BitVec 64) <<< (i + 1)) >>> 1).toNat = 2 ^ i := by
    rw [BitVec.toNat_ushiftRight, shifted, Nat.shiftRight_eq_div_pow]
    omega
  have positive : 0 < 2 ^ i := Nat.two_pow_pos i
  have top : (((1 : BitVec 64) <<< (i + 1)) - 1).toNat = 2 * 2 ^ i - 1 := by
    rw [BitVec.toNat_sub_of_le (by rw [BitVec.le_def, shifted]; simp; omega), shifted]
    rfl
  have lowFits : 2 * (((1 : BitVec 64) <<< (i + 1)) >>> 1).toNat < 2 ^ 64 := by
    omega
  have highFits : 2 * (((1 : BitVec 64) <<< (i + 1)) - 1).toNat < 2 ^ 64 := by
    omega
  constructor
  · have onlyFirst : ((1 : BitVec 64) <<< (i + 1)) >>> 1 = ((1 : BitVec 64) <<< (i + 1)) - 1 ↔
        i = 0 := by
      rw [← BitVec.toNat_inj, halved, top]
      cases i with
      | zero => simp
      | succ i =>
          have power : 0 < 2 ^ i := Nat.two_pow_pos i
          rw [Nat.pow_succ]
          omega
    simp only [log2Bounds, onlyFirst, log2Low]
    split
    · next first => subst first; rfl
    · rw [BitVec.toInt_eq_toNat_of_lt lowFits, halved]
  · simp only [log2Bounds, log2High]
    rw [BitVec.toInt_eq_toNat_of_lt highFits, top, twice]

/-- The numbers of a line are those with its logarithm. -/
theorem log2_eq_iff {v i : Nat} :
    Nat.log 2 v = i ↔ log2Low i ≤ v ∧ v ≤ log2High i := by
  have positive : 0 < 2 ^ (i + 1) := Nat.two_pow_pos _
  have below : v ≤ log2High i ↔ v < 2 ^ (i + 1) := by
    rw [log2High]
    omega
  rw [below, log2Low]
  split
  · next first => simp [first]
  · next later => exact Nat.log_eq_iff (.inl later)

/-! ## Lines of samples -/

/-- The counters count samples by their logarithms. -/
structure Slots (vals : List (BitVec 32)) (samples : List Nat) : Prop where
  counted : ∀ i < vals.length, (counter vals i).toNat = samples.countP (Nat.log 2 · = i)
  fits : ∀ v ∈ samples, Nat.log 2 v < vals.length

/-- What a line of `print_log2_hist` says.  The count is printed as an `int`. -/
structure Log2Row where
  low : Nat
  high : Nat
  count : BitVec 32

/-- Its text, which depends on the number of lines and on the greatest
counter. -/
def Log2Row.text (idxMax : Int) (valMax : BitVec 32) (row : Log2Row) : List Char :=
  log2Text (boundWidth idxMax) row.low row.high row.count.toInt
    (bar row.count valMax (barWidth idxMax))

/-- The lines tell how many samples lie where, each sample in one line. -/
structure ShowsSamples (rows : List Log2Row) (samples : List Nat) : Prop where
  counted : ∀ row ∈ rows,
    row.count.toInt = samples.countP fun v => row.low ≤ v ∧ v ≤ row.high
  once : ∀ v ∈ samples, ∃! row, row ∈ rows ∧ row.low ≤ v ∧ v ≤ row.high
  adjoin : rows.IsChain fun row next => next.low = row.high + 1
  total : (rows.map fun row => row.count.toInt).sum = samples.length

/-- The first lines. -/
def log2Rows (vals : List (BitVec 32)) (lines : Nat) : List Log2Row :=
  (List.range lines).map fun i => ⟨log2Low i, log2High i, counter vals i⟩

theorem sum_countP
    (samples : List α)
    (slot : α → Nat)
    (lines : Nat) :
    ((List.range lines).map fun i => samples.countP (slot · = i)).sum =
      samples.countP (slot · < lines) := by
  induction lines with
  | zero => simp
  | succ lines inductionHypothesis =>
      rw [List.range_succ, List.map_append, List.sum_append, inductionHypothesis]
      clear inductionHypothesis
      induction samples with
      | nil => rfl
      | cons sample samples inductionHypothesis =>
          simp only [List.map_cons, List.map_nil, List.sum_cons, List.sum_nil,
            List.countP_cons] at inductionHypothesis ⊢
          grind

/-- A sample lies in a line for which its counter is not zero. -/
theorem Slots.counts
    {vals : List (BitVec 32)}
    {samples : List Nat}
    (slots : Slots vals samples)
    (member : v ∈ samples) :
    Counts vals (Nat.log 2 v) := by
  intro zero
  have number := slots.counted (Nat.log 2 v) (slots.fits v member)
  rw [zero] at number
  have inhabited : 0 < samples.countP (Nat.log 2 · = Nat.log 2 v) :=
    List.countP_pos_iff.mpr ⟨v, member, by simp⟩
  exact inhabited.ne number

/-- A counter that fits an `int` is printed as the number of samples that it
counts. -/
theorem Slots.printed
    {vals : List (BitVec 32)}
    {samples : List Nat}
    (slots : Slots vals samples)
    (small : ∀ val ∈ vals, val.toNat < 2 ^ 31)
    {i : Nat}
    (inside : i < vals.length) :
    (counter vals i).toInt = samples.countP (Nat.log 2 · = i) := by
  have member : counter vals i ∈ vals := by
    rw [counter, List.getElem?_eq_getElem inside]
    exact List.getElem_mem inside
  have below := small _ member
  rw [BitVec.toInt_eq_toNat_of_lt (by omega), slots.counted i inside]

/-- Lines up to the last counter that is not zero show the samples. -/
theorem Slots.shows
    {vals : List (BitVec 32)}
    {samples : List Nat}
    (slots : Slots vals samples)
    (small : ∀ val ∈ vals, val.toNat < 2 ^ 31)
    {lines : Nat}
    (inside : lines ≤ vals.length)
    (all : ∀ i, Counts vals i → i < lines) :
    ShowsSamples (log2Rows vals lines) samples := by
  constructor
  · intro row member
    obtain ⟨i, inRange, rfl⟩ := List.mem_map.mp member
    rw [slots.printed small ((List.mem_range.mp inRange).trans_le inside)]
    simp only [log2_eq_iff]
  · intro v member
    refine ⟨⟨log2Low (Nat.log 2 v), log2High (Nat.log 2 v), counter vals (Nat.log 2 v)⟩,
      ⟨List.mem_map.mpr ⟨Nat.log 2 v, ?_, rfl⟩, log2_eq_iff.mp rfl⟩, ?_⟩
    · exact List.mem_range.mpr (all _ (slots.counts member))
    · rintro row ⟨inRows, covers⟩
      obtain ⟨i, -, rfl⟩ := List.mem_map.mp inRows
      rw [log2_eq_iff.mpr covers]
  · rw [log2Rows, List.isChain_map]
    refine (List.isChain_range _ _).mpr fun i _ => ?_
    have positive : 0 < 2 ^ (i + 1) := Nat.two_pow_pos _
    simp only [log2Low, log2High, if_neg (Nat.succ_ne_zero i)]
    omega
  · rw [log2Rows, List.map_map]
    have each : (List.range lines).map
          ((fun row : Log2Row => row.count.toInt) ∘
            fun i => ⟨log2Low i, log2High i, counter vals i⟩) =
        ((List.range lines).map fun i => samples.countP (Nat.log 2 · = i)).map Nat.cast := by
      rw [List.map_map]
      refine List.map_congr_left fun i inRange => ?_
      exact slots.printed small ((List.mem_range.mp inRange).trans_le inside)
    rw [each, ← Nat.cast_list_sum, sum_countP]
    refine congrArg Nat.cast (List.countP_eq_length.mpr fun v member => ?_)
    exact decide_eq_true (all _ (slots.counts member))

/-! ## What the functions print -/

theorem mapM_eq_some
    {f : α → Option β}
    {g : α → β}
    {entries : List α}
    (each : ∀ entry ∈ entries, f entry = some (g entry)) :
    entries.mapM f = some (entries.map g) := by
  induction entries with
  | nil => rfl
  | cons entry entries inductionHypothesis =>
      have rest := inductionHypothesis fun other member => each other (.tail entry member)
      rw [List.mapM_cons, each entry (.head entries), rest]
      rfl

theorem getElem?_eq_counter {vals : List (BitVec 32)} {i : Nat} (inside : i < vals.length) :
    vals[i]? = some (counter vals i) := by
  rw [counter, List.getElem?_eq_getElem inside, Option.getD_some]

theorem counter_mem {vals : List (BitVec 32)} {i : Nat} (inside : i < vals.length) :
    counter vals i ∈ vals :=
  List.mem_of_getElem? (getElem?_eq_counter inside)

/-- Where a counter is not zero, the greatest is not. -/
theorem Extent.Describes.positive
    {extent : Extent}
    {vals : List (BitVec 32)}
    (describes : extent.Describes vals)
    (counts : Counts vals i) :
    0 < extent.valMax := by
  have bound := describes.bound _ (counter_mem counts.lt)
  have nonzero : (counter vals i).toNat ≠ 0 := fun zero =>
    counts (BitVec.eq_of_toNat_eq zero)
  exact BitVec.lt_def.mpr ((Nat.pos_of_ne_zero nonzero).trans_le (BitVec.le_def.mp bound))

/-- Without a counter that is not zero both functions print nothing. -/
theorem Extent.Describes.idxMax_neg_iff
    {extent : Extent}
    {vals : List (BitVec 32)}
    (describes : extent.Describes vals) :
    extent.idxMax < 0 ↔ ∀ i, ¬ Counts vals i := by
  constructor
  · intro negative i counts
    have inside := describes.within i counts
    omega
  · intro none
    rcases describes.ends with ⟨-, isLast⟩ | ⟨first, -, -, -, counts, -⟩
    · omega
    · exact absurd counts (none first)

/-- With a counter that is not zero `print_log2_hist` prints the lines up to the
last of these. -/
theorem printLog2Hist_eq
    {vals : List (BitVec 32)}
    {last : Nat}
    (short : last < 63)
    (isLast : (extentOf vals).idxMax = last)
    (counts : Counts vals last)
    (valType : List Char) :
    printLog2Hist vals valType = some (log2Heading last valType ::
      (log2Rows vals (last + 1)).map (Log2Row.text last (extentOf vals).valMax)) := by
  have describes := extentOf_describes vals
  have inside : last + 1 ≤ vals.length := counts.lt
  have narrow : barWidth last < 2 ^ 31 := by
    rw [barWidth]
    split <;> decide
  have each : ∀ i ∈ List.range (last + 1), log2Line (extentOf vals) vals i =
      some (Log2Row.text last (extentOf vals).valMax ⟨log2Low i, log2High i, counter vals i⟩) := by
    intro i inRange
    have before : i < vals.length := (List.mem_range.mp inRange).trans_le inside
    have small : i < 63 := (Nat.le_of_lt_succ (List.mem_range.mp inRange)).trans_lt short
    have bounds := log2Bounds_eq small
    have prints := printStars_eq (describes.positive counts)
      (describes.bound _ (counter_mem before)) narrow
    rw [log2Line, if_neg (Nat.not_le.mpr small), getElem?_eq_counter before,
      Option.bind_some, isLast, prints, Option.map_some, bounds.1, bounds.2]
    rfl
  have number : ((last : Int) + 1).toNat = last + 1 := by
    omega
  simp only [printLog2Hist]
  rw [if_neg (by omega), isLast, number, mapM_eq_some each, Option.map_some, log2Rows,
    List.map_map]
  rfl

theorem length_decimal_le
    {number width : Nat}
    (positive : 0 < width)
    (fits : number < 10 ^ width) :
    (decimal number).length ≤ width := by
  have digits : decimal number = Nat.toDigits 10 number := Nat.toList_repr
  rw [digits]
  exact (Nat.length_toDigits_le_iff (by decide) positive).mpr fits

/-- A line whose numbers fit their columns. -/
theorem length_log2Text
    {width low high val : Nat}
    (positive : 0 < width)
    (ordered : low ≤ high)
    (fits : high < 10 ^ width)
    (small : val < 10 ^ 8)
    (bar : List Char) :
    (log2Text width low high val bar).length = 2 * width + 19 + bar.length := by
  have lowFits := length_decimal_le positive (ordered.trans_lt fits)
  have highFits := length_decimal_le positive fits
  have valFits := length_decimal_le (by decide) small
  simp only [log2Text, indented, padded, List.length_append, List.length_replicate,
    String.length_toList]
  have texts : " -> ".length = 4 ∧ " : ".length = 3 ∧ " |".length = 2 ∧ "|\n".length = 2 := by
    decide
  omega

theorem log2Low_le_high (i : Nat) : log2Low i ≤ log2High i := by
  have positive : 0 < 2 ^ i := Nat.two_pow_pos i
  rw [log2Low, log2High, Nat.pow_succ]
  split <;> omega

/-- The bounds of all lines fit the columns that are chosen by the last. -/
theorem log2High_lt
    {i last : Nat}
    (before : i ≤ last)
    (short : last < 63) :
    log2High i < 10 ^ boundWidth last := by
  have power : 2 ^ (i + 1) ≤ 2 ^ (last + 1) := Nat.pow_le_pow_right (by decide) (by omega)
  have positive : 0 < 2 ^ (i + 1) := Nat.two_pow_pos _
  have below : 2 ^ (last + 1) ≤ 10 ^ boundWidth last := by
    rw [boundWidth]
    split
    · exact (Nat.pow_le_pow_right (by decide) (show last + 1 ≤ 33 by omega)).trans (by decide)
    · exact (Nat.pow_le_pow_right (by decide) (show last + 1 ≤ 63 by omega)).trans (by decide)
  rw [log2High]
  omega

/-- All lines below the heading have the same length, 79 with the end of the line,
as long as no counter has more than eight digits. -/
theorem print_log2_hist_aligned
    {vals : List (BitVec 32)}
    (short : ∀ i, Counts vals i → i < 63)
    (small : ∀ val ∈ vals, val.toNat < 10 ^ 8)
    (valType : List Char) :
    ∃ lines, printLog2Hist vals valType = some lines ∧
      ∀ line ∈ lines.tail, line.length = 79 := by
  have describes := extentOf_describes vals
  rcases describes.ends with ⟨isFirst, isLast⟩ | ⟨first, last, -, isLast, -, counts⟩
  · exact ⟨[], by simp [printLog2Hist, isLast], by simp⟩
  · refine ⟨_, printLog2Hist_eq (short last counts) isLast counts valType,
      fun line member => ?_⟩
    obtain ⟨row, inRows, rfl⟩ := List.mem_map.mp member
    obtain ⟨i, inRange, rfl⟩ := List.mem_map.mp inRows
    have inside : last + 1 ≤ vals.length := counts.lt
    have before := List.mem_range.mp inRange
    have inVals := counter_mem (before.trans_le inside)
    have value : (counter vals i).toInt = (counter vals i).toNat :=
      BitVec.toInt_eq_toNat_of_lt (by have digits := small _ inVals; omega)
    have positive : 0 < boundWidth last := by
      rw [boundWidth]
      split <;> decide
    rw [Log2Row.text, value, length_log2Text positive (log2Low_le_high i)
      (log2High_lt (Nat.le_of_lt_succ before) (short last counts)) (small _ inVals),
      length_bar (describes.positive counts) (describes.bound _ inVals), boundWidth, barWidth]
    split <;> rfl

theorem print_log2_hist_aligned_four :
    ∃ lines, printLog2Hist [1, 0, 2, 1] "usecs".toList = some lines ∧
      ∀ line ∈ lines.tail, line.length = 79 :=
  print_log2_hist_aligned (fun _ counts => counts.lt.trans (by decide)) (by simp) "usecs".toList

/-! ## Linear histograms -/

/-- The indices of the counters that are not zero. -/
def countingIndices (vals : List (BitVec 32)) : List Nat :=
  (List.range vals.length).filter fun i => Counts vals i

/-- They lie in the extent. -/
theorem Extent.Describes.countingIndices_eq
    {extent : Extent}
    {vals : List (BitVec 32)}
    (describes : extent.Describes vals)
    {first last : Nat}
    (isFirst : extent.idxMin = first)
    (isLast : extent.idxMax = last)
    (counts : Counts vals first)
    (countsLast : Counts vals last) :
    countingIndices vals =
      (List.range' first (last + 1 - first)).filter fun i => Counts vals i := by
  have inside := countsLast.lt
  have ordered := (describes.within first counts).2
  have outside : ∀ start count, (∀ i, start ≤ i → i < start + count → i < first ∨ last < i) →
      (List.range' start count).filter (fun i => Counts vals i) = [] := by
    intro start count apart
    refine List.filter_eq_nil_iff.mpr fun i member => ?_
    have between := List.mem_range'_1.mp member
    have side := apart i between.1 between.2
    simp only [decide_eq_true_eq]
    intro countsHere
    have within := describes.within i countsHere
    omega
  have parts : List.range vals.length = List.range' 0 first ++
      (List.range' first (last + 1 - first) ++
        List.range' (last + 1) (vals.length - (last + 1))) := by
    have upper : first + (last + 1 - first) = last + 1 := by
      omega
    have total : first + (last + 1 - first + (vals.length - (last + 1))) = vals.length := by
      omega
    have second := List.range'_append_1 (s := first) (m := last + 1 - first)
      (n := vals.length - (last + 1))
    have whole := List.range'_append_1 (s := 0) (m := first)
      (n := last + 1 - first + (vals.length - (last + 1)))
    rw [upper] at second
    rw [Nat.zero_add, total] at whole
    rw [second, whole, List.range_eq_range']
  rw [countingIndices, parts, List.filter_append, List.filter_append,
    outside 0 first fun i _ _ => by omega, outside (last + 1) _ fun i _ _ => by omega,
    List.nil_append, List.append_nil]

/-- Bars of one length, which are to scale while the product of the greatest
counter and the length fits an `unsigned int`; beyond that no bar is full. -/
structure ToScale (vals : List (BitVec 32)) (valMax : BitVec 32) (width : Nat) : Prop where
  bound : ∀ val ∈ vals, val ≤ valMax
  reached : valMax ∈ vals
  length : ∀ val ∈ vals, (bar val valMax width).length = width
  full : (bar valMax valMax width).count '*' = width ↔ valMax.toNat * width < 2 ^ 32
  share : valMax.toNat * width < 2 ^ 32 → ∀ val ∈ vals,
    (bar val valMax width).count '*' = val.toNat * width / valMax.toNat

theorem count_stars_bar (val valMax : BitVec 32) (width : Nat) :
    (bar val valMax width).count '*' = stars val valMax width := by
  simp [bar, List.count_replicate]

theorem Extent.Describes.toScale
    {extent : Extent}
    {vals : List (BitVec 32)}
    (describes : extent.Describes vals)
    (counts : Counts vals i)
    (width : Nat) :
    ToScale vals extent.valMax width := by
  have positive := describes.positive counts
  refine ⟨describes.bound, describes.reached.resolve_left (BitVec.ne_of_lt positive).symm,
    fun val member => length_bar positive (describes.bound val member) width, ?_, ?_⟩
  · rw [count_stars_bar]
    exact stars_self_eq_iff positive
  · intro fits val member
    rw [count_stars_bar]
    exact stars_eq (describes.bound val member) fits

theorem mem_countingIndices {vals : List (BitVec 32)} {i : Nat} :
    i ∈ countingIndices vals ↔ Counts vals i := by
  rw [countingIndices, List.mem_filter, List.mem_range, decide_eq_true_eq]
  exact ⟨fun both => both.2, fun counts => ⟨counts.lt, counts⟩⟩

/-- The lines that a filter leaves. -/
theorem flatten_map_ite
    (keeps : α → Prop)
    [DecidablePred keeps]
    (line : α → β)
    (entries : List α) :
    (entries.map fun entry => if keeps entry then [line entry] else []).flatten =
      (entries.filter fun entry => keeps entry).map line := by
  induction entries with
  | nil => rfl
  | cons entry entries inductionHypothesis =>
      rw [List.map_cons, List.flatten_cons, inductionHypothesis, List.filter_cons]
      by_cases kept : keeps entry
      · simp [kept]
      · simp [kept]

/-- The lines of `print_linear_hist` show the counters that are not zero, in order
and each once, with bars that are to scale. -/
theorem print_linear_hist_shows_counters
    (vals : List (BitVec 32))
    (base step : BitVec 32)
    (valType : List Char) :
    ∃ valMax : BitVec 32,
      printLinearHist vals base step valType = some
        (if countingIndices vals = [] then []
        else ("     ".toList ++ padded 13 valType ++ " : count     distribution\n".toList) ::
          (countingIndices vals).map fun i =>
            linearText (base + BitVec.ofNat 32 i * step).toInt (counter vals i).toInt
              (bar (counter vals i) valMax 40)) ∧
      (countingIndices vals ≠ [] → ToScale vals valMax 40) := by
  have describes := extentOf_describes vals
  refine ⟨(extentOf vals).valMax, ?_⟩
  rcases describes.ends with ⟨-, isLast⟩ | ⟨first, last, isFirst, isLast, counts, countsLast⟩
  · have none := describes.idxMax_neg_iff.mp (by omega)
    have nothing : countingIndices vals = [] :=
      List.eq_nil_iff_forall_not_mem.mpr fun i member => none i (mem_countingIndices.mp member)
    simp [printLinearHist, isLast, nothing]
  · have something : countingIndices vals ≠ [] :=
      List.ne_nil_of_mem (mem_countingIndices.mpr counts)
    refine ⟨?_, fun _ => describes.toScale counts 40⟩
    let line := fun i => linearText (base + BitVec.ofNat 32 i * step).toInt (counter vals i).toInt
      (bar (counter vals i) (extentOf vals).valMax 40)
    have each : ∀ i ∈ List.range' first (last + 1 - first),
        linearLine (extentOf vals) vals base step i =
          some (if Counts vals i then [line i] else []) := by
      intro i member
      have between := List.mem_range'_1.mp member
      have inside : i < vals.length := by
        have bounded := countsLast.lt
        omega
      have prints := printStars_eq (describes.positive counts)
        (describes.bound _ (counter_mem inside)) (show 40 < 2 ^ 31 by decide)
      rw [linearLine, getElem?_eq_counter inside, Option.bind_some, prints, Option.map_some]
      by_cases zero : counter vals i = 0
      · rw [if_pos zero, if_neg fun nonzero => nonzero zero]
      · rw [if_neg zero, if_pos zero]
    have number : ((last : Int) + 1 - first).toNat = last + 1 - first := by
      omega
    simp only [printLinearHist]
    rw [if_neg (by omega), if_neg something, isFirst, isLast, number, Int.toNat_natCast,
      mapM_eq_some each, Option.map_some, flatten_map_ite,
      describes.countingIndices_eq isFirst isLast counts countsLast]

end Helpers
end EbpfHub
