import EbpfHub.Foundations.Scanf
import Mathlib.Algebra.Order.Ring.Int

/-!
# Reading a decimal number

`strtol` with base ten and a `long` of 64 bits skips white space, reads a sign
and digits, and ignores what follows.  The numeral at the beginning of a text is
unique, and the function is described by it.
-/

namespace Foundations
namespace Strtol

open Scanf

/-! ## The function -/

/-- The digits at the beginning of the input: their number and the rest. -/
def readDigits (input : List Char) : Option (Nat × List Char) :=
  if input.takeWhile (isDigit 10) = [] then none
  else some (digitsValue 10 (input.takeWhile (isDigit 10)), input.dropWhile (isDigit 10))

/-- A number with its sign. -/
def signed (negative : Bool) (magnitude : Nat) : Int :=
  if negative then -magnitude else magnitude

/-- The numeral at the beginning of the input: its number and the rest. -/
def readNumeral (input : List Char) : Option (Int × List Char) :=
  match takeSign (input.dropWhile isSpace) with
  | (negative, unsigned) =>
      (readDigits unsigned).map fun (magnitude, rest) => (signed negative magnitude, rest)

/-- `LONG_MAX`. -/
def longMax : Int := 2 ^ 63 - 1

/-- `LONG_MIN`. -/
def longMin : Int := -2 ^ 63

/-- `strtol` with base ten: the value, and whether it sets `errno` to
`ERANGE`. -/
def strtol (input : List Char) : Int × Bool :=
  match readNumeral input with
  | none => (0, false)
  | some (value, _) =>
      if longMax < value then (longMax, true)
      else if value < longMin then (longMin, true)
      else (value, false)

/-! ## Numerals -/

/-- Digits, at least one. -/
structure IsDigits (digits : List Char) : Prop where
  nonempty : digits ≠ []
  valid : ∀ c ∈ digits, isDigit 10 c = true

/-- A sign, which may be missing. -/
inductive IsSign : Bool → List Char → Prop
  | none : IsSign false []
  | plus : IsSign false ['+']
  | minus : IsSign true ['-']

/-- The text begins with the numeral of the number, after white space, and has
the rest behind it. -/
inductive Begins : List Char → Int → List Char → Prop
  | intro {space sign digits rest : List Char} {negative : Bool} :
      (∀ c ∈ space, isSpace c = true) →
      IsSign negative sign →
      IsDigits digits →
      Stops (isDigit 10) rest →
      Begins (space ++ (sign ++ (digits ++ rest))) (signed negative (digitsValue 10 digits)) rest

/-- The text is the numeral of the number, after white space. -/
def Denotes (text : List Char) (value : Int) : Prop := Begins text value []

theorem stops_dropWhile (p : Char → Bool) (input : List Char) : Stops p (input.dropWhile p) := by
  induction input with
  | nil => trivial
  | cons c input inductionHypothesis =>
      rw [List.dropWhile_cons]
      split
      · exact inductionHypothesis
      · next fails => exact Bool.eq_false_iff.mpr fails

theorem readDigits_eq_some_iff
    {input rest : List Char}
    {magnitude : Nat} :
    readDigits input = some (magnitude, rest) ↔
      ∃ digits, IsDigits digits ∧ Stops (isDigit 10) rest ∧ input = digits ++ rest ∧
        magnitude = digitsValue 10 digits := by
  unfold readDigits
  constructor
  · intro reads
    split at reads
    · cases reads
    · next nonempty =>
      cases reads
      refine ⟨_, ⟨nonempty, fun c member => ?_⟩, stops_dropWhile _ input,
        List.takeWhile_append_dropWhile.symm, rfl⟩
      exact List.mem_takeWhile_imp member
  · rintro ⟨digits, isDigits, stops, rfl, rfl⟩
    rw [takeWhile_append isDigits.valid stops, dropWhile_append isDigits.valid stops,
      if_neg isDigits.nonempty]

/-- A digit begins no sign. -/
theorem takeSign_digits
    {digits : List Char}
    (isDigits : IsDigits digits)
    (rest : List Char) :
    takeSign (digits ++ rest) = (false, digits ++ rest) := by
  cases digits with
  | nil => exact absurd rfl isDigits.nonempty
  | cons c digits => exact takeSign_of_isDigit (isDigits.valid c List.mem_cons_self) _

/-- What is taken is a sign. -/
theorem isSign_of_takeSign
    {input unsigned : List Char}
    {negative : Bool}
    (takes : takeSign input = (negative, unsigned)) :
    ∃ sign, IsSign negative sign ∧ input = sign ++ unsigned := by
  unfold takeSign at takes
  split at takes
  · cases takes
    exact ⟨_, .minus, rfl⟩
  · cases takes
    exact ⟨_, .plus, rfl⟩
  · cases takes
    exact ⟨_, .none, rfl⟩

/-- A sign before digits is taken. -/
theorem takeSign_of_isSign
    {sign digits : List Char}
    {negative : Bool}
    (isSign : IsSign negative sign)
    (isDigits : IsDigits digits)
    (rest : List Char) :
    takeSign (sign ++ (digits ++ rest)) = (negative, digits ++ rest) := by
  cases isSign with
  | none => exact takeSign_digits isDigits rest
  | plus => rfl
  | minus => rfl

/-- Neither a sign nor a digit is white space. -/
theorem stops_isSpace
    {sign digits : List Char}
    {negative : Bool}
    (isSign : IsSign negative sign)
    (isDigits : IsDigits digits)
    (rest : List Char) :
    Stops isSpace (sign ++ (digits ++ rest)) := by
  cases isSign with
  | none =>
      cases digits with
      | nil => exact absurd rfl isDigits.nonempty
      | cons c digits => exact isSpace_of_isDigit (isDigits.valid c List.mem_cons_self)
  | plus => rfl
  | minus => rfl

/-- The numeral that is read is the one at the beginning. -/
theorem readNumeral_eq_some_iff
    {input rest : List Char}
    {value : Int} :
    readNumeral input = some (value, rest) ↔ Begins input value rest := by
  constructor
  · intro reads
    unfold readNumeral at reads
    split at reads
    next negative unsigned takes =>
      obtain ⟨⟨magnitude, left⟩, digitsRead, same⟩ := Option.map_eq_some_iff.mp reads
      cases same
      obtain ⟨digits, isDigits, stops, rfl, rfl⟩ := readDigits_eq_some_iff.mp digitsRead
      obtain ⟨sign, isSign, split⟩ := isSign_of_takeSign takes
      rw [← List.takeWhile_append_dropWhile (p := isSpace) (l := input), split]
      exact .intro (fun c member => List.mem_takeWhile_imp member) isSign isDigits stops
  · rintro ⟨isSpaces, isSign, isDigits, stops⟩
    have digits := readDigits_eq_some_iff.mpr ⟨_, isDigits, stops, rfl, rfl⟩
    unfold readNumeral
    rw [dropWhile_append isSpaces (stops_isSpace isSign isDigits _),
      takeSign_of_isSign isSign isDigits]
    dsimp only
    rw [digits]
    rfl

/-- The numeral at the beginning of a text is unique. -/
theorem Begins.unique
    {input rest left : List Char}
    {value other : Int}
    (begins : Begins input value rest)
    (beginsToo : Begins input other left) :
    value = other ∧ rest = left := by
  have both := (readNumeral_eq_some_iff.mpr begins).symm.trans
    (readNumeral_eq_some_iff.mpr beginsToo)
  cases both
  exact ⟨rfl, rfl⟩

/-- `strtol` gives a positive value without an error exactly when it is that of
the numeral at the beginning of the text and not too large. -/
theorem strtol_eq_iff
    {input : List Char}
    {value : Int}
    (positive : 0 < value) :
    strtol input = (value, false) ↔ (∃ rest, Begins input value rest) ∧ value ≤ longMax := by
  simp only [← readNumeral_eq_some_iff]
  unfold strtol
  constructor
  · intro converts
    split at converts
    · cases converts
      exact absurd positive (Int.lt_irrefl 0)
    · next number rest reads =>
      split at converts
      · cases converts
      · next fits =>
        split at converts
        · cases converts
        · cases converts
          exact ⟨⟨rest, reads⟩, Int.not_lt.mp fits⟩
  · rintro ⟨⟨rest, reads⟩, fits⟩
    have above : ¬value < longMin := by
      unfold longMin
      omega
    rw [reads]
    dsimp only
    rw [if_neg (Int.not_lt.mpr fits), if_neg above]

end Strtol
end Foundations
