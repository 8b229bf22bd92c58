import EbpfHub.Foundations.ScanLines
import EbpfHub.Foundations.Strtol

/-!
# Writing a decimal number

The digits of a natural number, and the numeral of an integer, are read back by
the functions that read numbers.
-/

namespace Foundations
namespace Decimal

open Scanf

/-! ## Digits -/

theorem digitValue_digitChar {digit : Nat} (small : digit < 10) :
    digitValue (Nat.digitChar digit) = some digit := by
  have all : ∀ digit : Fin 10, digitValue (Nat.digitChar digit) = some digit.val := by
    decide
  exact all ⟨digit, small⟩

theorem isDigit_of_mem
    {number : Nat}
    {c : Char}
    (member : c ∈ Nat.toDigits 10 number) :
    isDigit 10 c = true := by
  induction number using Nat.strongRecOn with
  | ind number inductionHypothesis =>
      rw [Nat.toDigits_eq_if (by decide)] at member
      split at member
      · next small =>
          rw [List.mem_singleton.mp member, isDigit, digitValue_digitChar small]
          exact decide_eq_true small
      · next large =>
          rcases List.mem_append.mp member with before | last
          · exact inductionHypothesis (number / 10) (by omega) before
          · have small : number % 10 < 10 := Nat.mod_lt _ (by decide)
            rw [List.mem_singleton.mp last, isDigit, digitValue_digitChar small]
            exact decide_eq_true small

/-- The digits of a number stand for it. -/
theorem digitsValue_toDigits (number : Nat) :
    digitsValue 10 (Nat.toDigits 10 number) = number := by
  induction number using Nat.strongRecOn with
  | ind number inductionHypothesis =>
      rw [Nat.toDigits_eq_if (by decide)]
      split
      · next small =>
          rw [digitsValue, List.foldl_cons, List.foldl_nil, digitValue_digitChar small]
          exact Nat.zero_add number
      · next large =>
          have before := inductionHypothesis (number / 10) (by omega)
          have small : number % 10 < 10 := Nat.mod_lt _ (by decide)
          rw [digitsValue] at before ⊢
          rw [List.foldl_append, before, List.foldl_cons, List.foldl_nil,
            digitValue_digitChar small]
          exact Nat.div_add_mod number 10

/-- The numeral of a number below 2^64. -/
def numeral (number : Nat) (fits : number < 2 ^ 64) : Numeral 10 where
  digits := Nat.toDigits 10 number
  nonempty := Nat.toDigits_ne_nil
  valid := fun _ member => isDigit_of_mem member
  fits := by rwa [digitsValue_toDigits]

/-- The numeral of an integer. -/
def text (value : Int) : List Char := (toString value).toList

theorem text_natCast (number : Nat) : text number = Nat.toDigits 10 number := Nat.toList_repr

theorem text_negSucc (number : Nat) :
    text (Int.negSucc number) = '-' :: Nat.toDigits 10 (number + 1) := by
  have sign : text (Int.negSucc number) = ("-" ++ (number + 1).repr).toList := rfl
  rw [sign, String.toList_append, Nat.toList_repr]
  rfl

/-- The digits of a number are digits. -/
theorem isDigits (number : Nat) : Strtol.IsDigits (Nat.toDigits 10 number) :=
  ⟨Nat.toDigits_ne_nil, fun _ member => isDigit_of_mem member⟩

/-- A numeral begins the text that it is written to. -/
theorem begins_text
    (value : Int)
    {rest : List Char}
    (stops : Stops (isDigit 10) rest) :
    Strtol.Begins (text value ++ rest) value rest := by
  have blank : ∀ c ∈ ([] : List Char), isSpace c = true := fun _ member => by cases member
  cases value with
  | ofNat number =>
      have begins := Strtol.Begins.intro blank .none (isDigits number) stops
      rw [digitsValue_toDigits] at begins
      have same : text (Int.ofNat number) = Nat.toDigits 10 number := text_natCast number
      rw [same]
      exact begins
  | negSucc number =>
      have begins := Strtol.Begins.intro blank .minus (isDigits (number + 1)) stops
      rw [digitsValue_toDigits] at begins
      rw [text_negSucc]
      exact begins

/-- `strtol` reads a `long` back. -/
theorem strtol_text
    {value : Int}
    (atLeast : Strtol.longMin ≤ value)
    (atMost : value ≤ Strtol.longMax)
    {rest : List Char}
    (stops : Stops (isDigit 10) rest) :
    Strtol.strtol (text value ++ rest) = (value, false) := by
  have reads := Strtol.readNumeral_eq_some_iff.mpr (begins_text value stops)
  rw [Strtol.strtol, reads]
  dsimp only
  rw [if_neg (Int.not_lt.mpr atMost), if_neg (Int.not_lt.mpr atLeast)]

/-- A numeral is not empty. -/
theorem text_ne_nil (value : Int) : text value ≠ [] := by
  cases value with
  | ofNat number =>
      have same : text (Int.ofNat number) = Nat.toDigits 10 number := text_natCast number
      rw [same]
      exact Nat.toDigits_ne_nil
  | negSucc number =>
      rw [text_negSucc]
      exact List.cons_ne_nil _ _

/-- A numeral holds digits and a sign. -/
theorem mem_text
    {value : Int}
    {c : Char}
    (member : c ∈ text value) :
    c = '-' ∨ isDigit 10 c = true := by
  cases value with
  | ofNat number =>
      have same : text (Int.ofNat number) = Nat.toDigits 10 number := text_natCast number
      rw [same] at member
      exact .inr (isDigit_of_mem member)
  | negSucc number =>
      rw [text_negSucc] at member
      exact (List.mem_cons.mp member).imp_right isDigit_of_mem

end Decimal
end Foundations
