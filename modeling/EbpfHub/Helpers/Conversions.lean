import EbpfHub.Foundations.Decimal
import EbpfHub.Foundations.Tokens

/-!
# Lists of numbers

`split_convert` of `trace_helpers.c` cuts a string into tokens and converts each
into an element of an array.  It stops when the array is full and when a
conversion fails.
-/

namespace EbpfHub
namespace Helpers

open Foundations
open Foundations.Tokens (strtok tokens)

variable {α : Type*}

/-! ## The functions -/

/-- The numbers of errors. -/
abbrev einval : Int := 22
abbrev erange : Int := 34
abbrev enobufs : Int := 105

/-- The character is one of `delim`. -/
def isDelim (delim : List Char) (c : Char) : Bool := delim.contains c

/-- The loop of `split_convert`: what it returns and the elements that it has
written.  A conversion gives an element and what it returns. -/
def splitLoop
    (delim : List Char)
    (elemsSize elemSize : Nat)
    (convert : List Char → α × Int) :
    Nat → List α → List Char → Int × List α
  | 0, stored, _ => (0, stored)
  | passes + 1, stored, input =>
      match strtok (isDelim delim) input with
      | none => (0, stored)
      | some (token, rest) =>
          if stored.length * elemSize + elemSize > elemsSize then (-enobufs, stored)
          else
            let ret := (convert token).2
            if ret ≠ 0 then (-ret, stored ++ [(convert token).1])
            else splitLoop delim elemsSize elemSize convert passes
              (stored ++ [(convert token).1]) rest

/-- `split_convert`, where a pointer that is `none` is `NULL`.  The loop makes one
pass more than there are characters. -/
def splitConvert
    (s delim : Option (List Char))
    (elems : Option Unit)
    (elemsSize elemSize : Nat)
    (convert : List Char → α × Int) : Int × List α :=
  match s, delim, elems with
  | some s, some delim, some () =>
      splitLoop delim elemsSize elemSize convert (s.length + 1) [] s
  | _, _, _ => (-einval, [])

/-- `str_to_int`: the element, to which the number is cut, and `errno`. -/
def strToInt (src : List Char) : BitVec 32 × Int :=
  (BitVec.ofInt 32 (Strtol.strtol src).1, if (Strtol.strtol src).2 then erange else 0)

/-- `str_to_long`. -/
def strToLong (src : List Char) : BitVec 64 × Int :=
  (BitVec.ofInt 64 (Strtol.strtol src).1, if (Strtol.strtol src).2 then erange else 0)

/-! ## Tokens and elements -/

/-- The conversion of the token succeeds. -/
abbrev Converts (convert : List Char → α × Int) (token : List Char) : Prop :=
  (convert token).2 = 0

/-- The loop converts tokens as long as there is room. -/
theorem splitLoop_append
    {delim : List Char}
    {elemsSize elemSize : Nat}
    {convert : List Char → α × Int}
    {before after : List (List Char)}
    {input : List Char}
    {passes : Nat}
    {stored : List α}
    (cut : tokens (isDelim delim) input = before ++ after)
    (converts : ∀ token ∈ before, Converts convert token)
    (room : (stored.length + before.length) * elemSize ≤ elemsSize)
    (enough : input.length < passes) :
    ∃ rest more, tokens (isDelim delim) rest = after ∧ rest.length < more ∧
      splitLoop delim elemsSize elemSize convert passes stored input =
        splitLoop delim elemsSize elemSize convert more
          (stored ++ before.map fun token => (convert token).1) rest := by
  induction before generalizing input passes stored with
  | nil => exact ⟨input, passes, cut, enough, by simp⟩
  | cons token before inductionHypothesis =>
      obtain ⟨first, others⟩ := List.forall_mem_cons.mp converts
      have spec := @Tokens.strtok_spec _ (isDelim delim) input
      rcases spec with ⟨-, nothing⟩ | ⟨found, rest, takes, next, shorter⟩
      · rw [nothing] at cut
        cases cut
      · rw [next] at cut
        obtain ⟨rfl, cutRest⟩ := List.cons.inj cut
        obtain ⟨passes, rfl⟩ := Nat.exists_eq_add_one_of_ne_zero (Nat.ne_zero_of_lt enough)
        have counted : (stored ++ [(convert found).1]).length + before.length =
            stored.length + (found :: before).length := by
          simp only [List.length_append, List.length_cons, List.length_nil]
          omega
        have roomNext : ((stored ++ [(convert found).1]).length + before.length) * elemSize ≤
            elemsSize := by
          rwa [counted]
        have fits : ¬stored.length * elemSize + elemSize > elemsSize := by
          have bound : (stored.length + 1) * elemSize ≤
              (stored.length + (found :: before).length) * elemSize :=
            Nat.mul_le_mul_right elemSize (by rw [List.length_cons]; omega)
          rw [Nat.succ_mul] at bound
          omega
        have enoughNext : rest.length < passes := by
          omega
        obtain ⟨last, more, cutLast, enoughLast, continues⟩ :=
          inductionHypothesis cutRest others roomNext enoughNext
        refine ⟨last, more, cutLast, enoughLast, ?_⟩
        rw [splitLoop, takes]
        dsimp only
        rw [if_neg fits, if_neg (not_not.mpr first), continues]
        simp

/-- With room for all tokens, and no conversion that fails, all are converted. -/
theorem splitConvert_of_room
    {s delim : List Char}
    {elemsSize elemSize : Nat}
    {convert : List Char → α × Int}
    (converts : ∀ token ∈ tokens (isDelim delim) s, Converts convert token)
    (room : (tokens (isDelim delim) s).length * elemSize ≤ elemsSize) :
    splitConvert (some s) (some delim) (some ()) elemsSize elemSize convert =
      (0, (tokens (isDelim delim) s).map fun token => (convert token).1) := by
  have start : (([] : List α).length + (tokens (isDelim delim) s).length) * elemSize ≤
      elemsSize := by
    simpa using room
  obtain ⟨rest, more, cut, enough, continues⟩ := splitLoop_append
    (List.append_nil (tokens (isDelim delim) s)).symm converts start (Nat.lt_succ_self s.length)
  obtain ⟨more, rfl⟩ := Nat.exists_eq_add_one_of_ne_zero (Nat.ne_zero_of_lt enough)
  rw [splitConvert, continues, splitLoop, Tokens.strtok_eq_none cut]
  rfl

section Stops

variable {s delim token : List Char} {before after : List (List Char)}
  {elemsSize elemSize : Nat} {convert : List Char → α × Int}

/-- The loop comes to a token when those before it are converted. -/
theorem splitConvert_append
    (cut : tokens (isDelim delim) s = before ++ token :: after)
    (converts : ∀ earlier ∈ before, Converts convert earlier)
    (room : before.length * elemSize ≤ elemsSize) :
    ∃ input rest passes, strtok (isDelim delim) input = some (token, rest) ∧
      splitConvert (some s) (some delim) (some ()) elemsSize elemSize convert =
        splitLoop delim elemsSize elemSize convert (passes + 1)
          (before.map fun token => (convert token).1) input := by
  have start : (([] : List α).length + before.length) * elemSize ≤ elemsSize := by
    simpa using room
  obtain ⟨input, more, next, enough, continues⟩ :=
    splitLoop_append cut converts start (Nat.lt_succ_self s.length)
  obtain ⟨passes, rfl⟩ := Nat.exists_eq_add_one_of_ne_zero (Nat.ne_zero_of_lt enough)
  obtain ⟨rest, takes⟩ := Tokens.exists_strtok_eq_some next
  exact ⟨input, rest, passes, takes, continues⟩

/-- At a token for which there is no room the loop stops. -/
theorem splitConvert_of_full
    (cut : tokens (isDelim delim) s = before ++ token :: after)
    (converts : ∀ earlier ∈ before, Converts convert earlier)
    (room : before.length * elemSize ≤ elemsSize)
    (full : elemsSize < (before.length + 1) * elemSize) :
    splitConvert (some s) (some delim) (some ()) elemsSize elemSize convert =
      (-enobufs, before.map fun token => (convert token).1) := by
  obtain ⟨input, rest, passes, takes, continues⟩ := splitConvert_append cut converts room
  have noRoom : (before.map fun token => (convert token).1).length * elemSize + elemSize >
      elemsSize := by
    rwa [List.length_map, ← Nat.succ_mul]
  rw [continues, splitLoop, takes]
  dsimp only
  rw [if_pos noRoom]

/-- At a token that is not converted the loop stops behind it. -/
theorem splitConvert_of_failure
    (cut : tokens (isDelim delim) s = before ++ token :: after)
    (converts : ∀ earlier ∈ before, Converts convert earlier)
    (room : (before.length + 1) * elemSize ≤ elemsSize)
    (fails : ¬Converts convert token) :
    splitConvert (some s) (some delim) (some ()) elemsSize elemSize convert =
      (-(convert token).2, (before ++ [token]).map fun token => (convert token).1) := by
  have less : before.length * elemSize ≤ elemsSize :=
    (Nat.mul_le_mul_right elemSize (Nat.le_succ before.length)).trans room
  obtain ⟨input, rest, passes, takes, continues⟩ := splitConvert_append cut converts less
  have hasRoom : ¬(before.map fun token => (convert token).1).length * elemSize + elemSize >
      elemsSize := by
    rw [List.length_map, ← Nat.succ_mul]
    exact Nat.not_lt.mpr room
  rw [continues, splitLoop, takes]
  dsimp only
  rw [if_neg hasRoom, if_pos fails, List.map_append]
  rfl

end Stops

/-- `split_convert` converts the tokens in order.  It succeeds when there is room for
all of them and all conversions succeed; else it stops at the first token for
which there is no room, or that is not converted, and returns why. -/
theorem split_convert_converts_tokens
    (s delim : List Char)
    (elemsSize elemSize : Nat)
    (convert : List Char → α × Int) :
    ((∀ token ∈ tokens (isDelim delim) s, Converts convert token) →
      (tokens (isDelim delim) s).length * elemSize ≤ elemsSize →
      splitConvert (some s) (some delim) (some ()) elemsSize elemSize convert =
        (0, (tokens (isDelim delim) s).map fun token => (convert token).1)) ∧
    ∀ before token after, tokens (isDelim delim) s = before ++ token :: after →
      (∀ earlier ∈ before, Converts convert earlier) →
      before.length * elemSize ≤ elemsSize →
      (elemsSize < (before.length + 1) * elemSize →
        splitConvert (some s) (some delim) (some ()) elemsSize elemSize convert =
          (-enobufs, before.map fun token => (convert token).1)) ∧
      ((before.length + 1) * elemSize ≤ elemsSize → ¬Converts convert token →
        splitConvert (some s) (some delim) (some ()) elemsSize elemSize convert =
          (-(convert token).2, (before ++ [token]).map fun token => (convert token).1)) :=
  ⟨splitConvert_of_room, fun _ _ _ cut converts room =>
    ⟨splitConvert_of_full cut converts room, splitConvert_of_failure cut converts⟩⟩

/-! ## Numbers -/

/-- The number is one of type `long`. -/
abbrev IsLong (value : Int) : Prop := Strtol.longMin ≤ value ∧ value ≤ Strtol.longMax

/-- What a conversion makes of numbers that are joined by a delimiter. -/
theorem splitConvert_numbers
    {convert : List Char → α × Int}
    {element : Int → α}
    (reads : ∀ value, IsLong value → convert (Decimal.text value) = (element value, 0))
    {values : List Int}
    (long : ∀ value ∈ values, IsLong value)
    {delim : List Char}
    {c : Char}
    (joins : c ∈ delim)
    (apart : ∀ d ∈ delim, d ≠ '-' ∧ Scanf.isDigit 10 d = false)
    {elemSize : Nat}
    (positive : 0 < elemSize)
    (elemsSize : Nat) :
    splitConvert (some ([c].intercalate (values.map Decimal.text))) (some delim) (some ())
        elemsSize elemSize convert =
      (if values.length * elemSize ≤ elemsSize then 0 else -enobufs,
        (values.take (elemsSize / elemSize)).map element) := by
  have cut : tokens (isDelim delim) ([c].intercalate (values.map Decimal.text)) =
      values.map Decimal.text := by
    refine Tokens.tokens_intercalate ?_ ?_ (List.contains_iff_mem.mpr joins)
    · intro word member
      obtain ⟨value, -, rfl⟩ := List.mem_map.mp member
      exact Decimal.text_ne_nil value
    · intro word member d inWord
      obtain ⟨value, -, rfl⟩ := List.mem_map.mp member
      refine Bool.eq_false_iff.mpr fun delimits => ?_
      obtain ⟨noSign, noDigit⟩ := apart d (List.contains_iff_mem.mp delimits)
      rcases Decimal.mem_text inWord with sign | digit
      · exact noSign sign
      · rw [noDigit] at digit
        cases digit
  have elements : ∀ numbers : List Int, (∀ value ∈ numbers, IsLong value) →
      (numbers.map Decimal.text).map (fun token => (convert token).1) = numbers.map element := by
    intro numbers isLong
    rw [List.map_map]
    refine List.map_congr_left fun value member => ?_
    rw [Function.comp_apply, reads value (isLong value member)]
  have converts : ∀ numbers : List Int, (∀ value ∈ numbers, IsLong value) →
      ∀ token ∈ numbers.map Decimal.text, Converts convert token := by
    intro numbers isLong token member
    obtain ⟨value, inValues, rfl⟩ := List.mem_map.mp member
    rw [Converts, reads value (isLong value inValues)]
  by_cases room : values.length * elemSize ≤ elemsSize
  · have all : values.length ≤ elemsSize / elemSize := (Nat.le_div_iff_mul_le positive).mpr room
    have convertsAll : ∀ token ∈ tokens (isDelim delim)
        ([c].intercalate (values.map Decimal.text)), Converts convert token := by
      rw [cut]
      exact converts values long
    have roomForAll : (tokens (isDelim delim)
        ([c].intercalate (values.map Decimal.text))).length * elemSize ≤ elemsSize := by
      rwa [cut, List.length_map]
    have stored := splitConvert_of_room convertsAll roomForAll
    rw [cut, elements values long] at stored
    rw [if_pos room, List.take_of_length_le all]
    exact stored
  · have fewer : elemsSize / elemSize < values.length :=
      Nat.not_le.mp (mt (Nat.le_div_iff_mul_le positive).mp room)
    have front : ∀ value ∈ values.take (elemsSize / elemSize), IsLong value :=
      fun value member => long value (List.mem_of_mem_take member)
    have split : values.map Decimal.text =
        (values.take (elemsSize / elemSize)).map Decimal.text ++
          Decimal.text values[elemsSize / elemSize] ::
            (values.drop (elemsSize / elemSize + 1)).map Decimal.text := by
      rw [← List.map_cons, ← List.drop_eq_getElem_cons fewer, ← List.map_append,
        List.take_append_drop]
    have count : ((values.take (elemsSize / elemSize)).map Decimal.text).length =
        elemsSize / elemSize := by
      rw [List.length_map, List.length_take, Nat.min_eq_left fewer.le]
    rw [if_neg room, ← elements _ front]
    refine splitConvert_of_full (cut.trans split) (converts _ front) ?_ ?_
    · rw [count]
      exact Nat.div_mul_le_self elemsSize elemSize
    · rw [count]
      exact (Nat.div_lt_iff_lt_mul positive).mp (Nat.lt_succ_self _)

/-- Numbers of type `long` that are joined by a delimiter are read back as far as
there is room.  As elements of type `int` they are cut to 32 bits, and the call
succeeds all the same. -/
theorem split_convert_reads_numbers
    {values : List Int}
    (long : ∀ value ∈ values, IsLong value)
    {delim : List Char}
    {c : Char}
    (joins : c ∈ delim)
    (apart : ∀ d ∈ delim, d ≠ '-' ∧ Scanf.isDigit 10 d = false)
    (elemsSize : Nat) :
    (∃ stored, splitConvert (some ([c].intercalate (values.map Decimal.text))) (some delim)
        (some ()) elemsSize 8 strToLong =
          (if values.length * 8 ≤ elemsSize then 0 else -enobufs, stored) ∧
      stored.map BitVec.toInt = values.take (elemsSize / 8)) ∧
    ∃ stored, splitConvert (some ([c].intercalate (values.map Decimal.text))) (some delim)
        (some ()) elemsSize 4 strToInt =
          (if values.length * 4 ≤ elemsSize then 0 else -enobufs, stored) ∧
      stored.map BitVec.toInt =
        (values.take (elemsSize / 4)).map fun value => value.bmod (2 ^ 32) := by
  have reads : ∀ value, IsLong value →
      Strtol.strtol (Decimal.text value) = (value, false) := by
    intro value isLong
    have converted := Decimal.strtol_text isLong.1 isLong.2 (show Scanf.Stops _ [] from trivial)
    rwa [List.append_nil] at converted
  have readsLong : ∀ value, IsLong value →
      strToLong (Decimal.text value) = (BitVec.ofInt 64 value, 0) := by
    intro value isLong
    rw [strToLong, reads value isLong]
    rfl
  have readsInt : ∀ value, IsLong value →
      strToInt (Decimal.text value) = (BitVec.ofInt 32 value, 0) := by
    intro value isLong
    rw [strToInt, reads value isLong]
    rfl
  refine ⟨⟨_, splitConvert_numbers readsLong long joins apart (by decide) elemsSize, ?_⟩,
    ⟨_, splitConvert_numbers readsInt long joins apart (by decide) elemsSize, ?_⟩⟩
  · have whole : ∀ value ∈ values.take (elemsSize / 8), (BitVec.ofInt 64 value).toInt = value := by
      intro value member
      obtain ⟨atLeast, atMost⟩ := long value (List.mem_of_mem_take member)
      rw [Strtol.longMin] at atLeast
      rw [Strtol.longMax] at atMost
      exact BitVec.toInt_ofInt_eq_self (by decide) (by omega) (by omega)
    rw [List.map_map]
    exact (List.map_congr_left whole).trans (List.map_id _)
  · rw [List.map_map]
    refine List.map_congr_left fun value _ => ?_
    rw [Function.comp_apply, BitVec.toInt_ofInt]

/-- Three numbers, room for two. -/
theorem split_convert_reads_numbers_three :
    (∃ stored, splitConvert (some ([','].intercalate ([1, -2, 3].map Decimal.text)))
        (some [',', ' ']) (some ()) 16 8 strToLong =
          (if [1, -2, 3].length * 8 ≤ 16 then 0 else -enobufs, stored) ∧
      stored.map BitVec.toInt = [1, -2, 3].take (16 / 8)) ∧
    ∃ stored, splitConvert (some ([','].intercalate ([1, -2, 3].map Decimal.text)))
        (some [',', ' ']) (some ()) 16 4 strToInt =
          (if [1, -2, 3].length * 4 ≤ 16 then 0 else -enobufs, stored) ∧
      stored.map BitVec.toInt =
        ([1, -2, 3].take (16 / 4)).map fun value => value.bmod (2 ^ 32) := by
  have apart : ∀ d ∈ [',', ' '], d ≠ '-' ∧ Scanf.isDigit 10 d = false := by
    intro d member
    rcases List.mem_pair.mp member with rfl | rfl
    · decide
    · decide
  exact split_convert_reads_numbers (by decide) (by decide) apart 16

end Helpers
end EbpfHub
