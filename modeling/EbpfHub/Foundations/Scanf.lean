import Mathlib.Data.BitVec
import Mathlib.Data.List.TakeWhile

/-!
# Formatted input

The directives of `scanf` over a list of characters: white space, a character
that must follow, integers, words of a bounded width, and the rest of a line.
What has been written in the shape of a directive is read back by it.
-/

namespace Foundations
namespace Scanf

/-! ## Characters -/

/-- `isspace` in the C locale. -/
def isSpace (c : Char) : Bool :=
  c = ' ' || c = '\t' || c = '\n' || c = '\x0b' || c = '\x0c' || c = '\r'

/-- The value of a digit. -/
def digitValue (c : Char) : Option Nat :=
  if '0' ≤ c ∧ c ≤ '9' then some (c.toNat - '0'.toNat)
  else if 'a' ≤ c ∧ c ≤ 'f' then some (c.toNat - 'a'.toNat + 10)
  else if 'A' ≤ c ∧ c ≤ 'F' then some (c.toNat - 'A'.toNat + 10)
  else none

/-- The character is a digit of the base, which is at most sixteen. -/
def isDigit (base : Nat) (c : Char) : Bool := (digitValue c).any (· < base)

/-- The number that a list of digits stands for. -/
def digitsValue (base : Nat) (digits : List Char) : Nat :=
  digits.foldl (fun value c => base * value + (digitValue c).getD 0) 0

/-! ## Directives -/

/-- Why a directive cannot go on. -/
inductive Stop
  /-- The input ends before it. -/
  | eof
  /-- The input does not match it. -/
  | mismatch
  deriving DecidableEq

/-- What a directive stores. -/
inductive Item
  | integer (value : BitVec 64)
  | text (chars : List Char)
  deriving DecidableEq

/-- A directive of a format. -/
inductive Directive
  /-- White space. -/
  | space
  /-- A character that must follow. -/
  | literal (c : Char)
  /-- `%llu` and `%llx`, for the bases ten and sixteen. -/
  | integer (base : Nat)
  /-- `%4s`, for the width four. -/
  | word (width : Nat)
  /-- `%[^\n]`. -/
  | line

/-- The sign before an integer, whether it is negative, and the rest. -/
def takeSign : List Char → Bool × List Char
  | '-' :: rest => (true, rest)
  | '+' :: rest => (false, rest)
  | input => (false, input)

/-- The rest after the prefix of an integer of base sixteen. -/
def dropPrefix (base : Nat) : List Char → List Char
  | '0' :: c :: rest => if base = 16 ∧ (c = 'x' ∨ c = 'X') then rest else '0' :: c :: rest
  | input => input

/-- `strtoull`: a value that is too large becomes the largest one. -/
def strtoull (negative : Bool) (value : Nat) : BitVec 64 :=
  if value < 2 ^ 64 then
    if negative then -BitVec.ofNat 64 value else BitVec.ofNat 64 value
  else -1

/-- Read an integer that begins here. -/
def readInteger (base : Nat) (input : List Char) : Except Stop (List Item × List Char) :=
  let (negative, unsigned) := takeSign input
  let rest := dropPrefix base unsigned
  match rest.takeWhile (isDigit base) with
  | [] => .error .mismatch
  | digit :: digits =>
      .ok ([.integer (strtoull negative (digitsValue base (digit :: digits)))],
        rest.dropWhile (isDigit base))

/-- Read what a directive asks for: the items it stores and the rest. -/
def Directive.read (input : List Char) : Directive → Except Stop (List Item × List Char)
  | .space => .ok ([], input.dropWhile isSpace)
  | .literal c =>
      match input with
      | [] => .error .eof
      | d :: rest => if d = c then .ok ([], rest) else .error .mismatch
  | .integer base =>
      match input.dropWhile isSpace with
      | [] => .error .eof
      | c :: rest => readInteger base (c :: rest)
  | .word width =>
      match input.dropWhile isSpace with
      | [] => .error .eof
      | c :: rest =>
          let word := ((c :: rest).take width).takeWhile (!isSpace ·)
          .ok ([.text word], (c :: rest).drop word.length)
  | .line =>
      match input with
      | [] => .error .eof
      | c :: rest =>
          match (c :: rest).takeWhile (· ≠ '\n') with
          | [] => .error .mismatch
          | chars => .ok ([.text chars], (c :: rest).dropWhile (· ≠ '\n'))

/-- `fscanf`: the items that are stored, and the rest of the input, or why the
scan stopped. -/
def scan : List Directive → List Char → List Item × Except Stop (List Char)
  | [], input => ([], .ok input)
  | directive :: format, input =>
      match directive.read input with
      | .error stop => ([], .error stop)
      | .ok (items, rest) => (items ++ (scan format rest).1, (scan format rest).2)

/-- A directive that is satisfied hands the rest to the next ones. -/
theorem scan_cons
    {directive : Directive}
    {format : List Directive}
    {input middle rest : List Char}
    {items more : List Item}
    (satisfied : directive.read input = .ok (items, middle))
    (scanned : scan format middle = (more, .ok rest)) :
    scan (directive :: format) input = (items ++ more, .ok rest) := by
  rw [scan, satisfied]
  dsimp only
  rw [scanned]

/-! ## What has been written is read back -/

/-- No character that satisfies the predicate begins the input. -/
def Stops (p : Char → Bool) : List Char → Prop
  | [] => True
  | c :: _ => p c = false

theorem takeWhile_append
    {p : Char → Bool}
    {front rest : List Char}
    (all : ∀ c ∈ front, p c = true)
    (stops : Stops p rest) :
    (front ++ rest).takeWhile p = front := by
  rw [List.takeWhile_append_of_pos all]
  cases rest with
  | nil => simp
  | cons c rest =>
      have last : ¬p c = true := Bool.eq_false_iff.mp stops
      rw [List.takeWhile_cons_of_neg last, List.append_nil]

theorem dropWhile_append
    {p : Char → Bool}
    {front rest : List Char}
    (all : ∀ c ∈ front, p c = true)
    (stops : Stops p rest) :
    (front ++ rest).dropWhile p = rest := by
  rw [List.dropWhile_append_of_pos all]
  cases rest with
  | nil => rfl
  | cons c rest => exact List.dropWhile_cons_of_neg (Bool.eq_false_iff.mp stops)

theorem dropWhile_of_stops
    {p : Char → Bool}
    {input : List Char}
    (stops : Stops p input) :
    input.dropWhile p = input := by
  have none : ∀ c ∈ ([] : List Char), p c = true := fun _ member => by cases member
  exact dropWhile_append none stops

/-- A blank is skipped before what is not one. -/
theorem read_space
    {rest : List Char}
    (stops : Stops isSpace rest) :
    Directive.space.read (' ' :: rest) = .ok ([], rest) := by
  rw [Directive.read, List.dropWhile_cons_of_pos (by decide), dropWhile_of_stops stops]

theorem read_literal (c : Char) (rest : List Char) :
    (Directive.literal c).read (c :: rest) = .ok ([], rest) := by
  rw [Directive.read, if_pos rfl]

/-- A nonempty list of digits whose value is below 2^64. -/
structure Numeral (base : Nat) where
  digits : List Char
  nonempty : digits ≠ []
  valid : ∀ c ∈ digits, isDigit base c = true
  fits : digitsValue base digits < 2 ^ 64

/-- The value of a numeral. -/
def Numeral.value (numeral : Numeral base) : BitVec 64 :=
  BitVec.ofNat 64 (digitsValue base numeral.digits)

/-- What may follow a numeral. -/
def EndsNumeral (base : Nat) : List Char → Prop :=
  Stops fun c => isDigit base c || c = 'x' || c = 'X'

theorem endsNumeral_cons {base : Nat} {c : Char} {rest : List Char} :
    EndsNumeral base (c :: rest) ↔ isDigit base c = false ∧ ¬(c = 'x' ∨ c = 'X') := by
  change (isDigit base c || decide (c = 'x') || decide (c = 'X')) = false ↔ _
  rw [Bool.or_eq_false_iff, Bool.or_eq_false_iff, decide_eq_false_iff_not,
    decide_eq_false_iff_not, not_or, and_assoc]

/-- A separator of numerals ends one. -/
theorem endsNumeral_of_separator
    {c : Char}
    (separator : c ∈ [' ', '-', ':'])
    (base : Nat)
    (rest : List Char) :
    EndsNumeral base (c :: rest) := by
  simp only [List.mem_cons, List.not_mem_nil, or_false] at separator
  rcases separator with rfl | rfl | rfl
  · exact endsNumeral_cons.mpr ⟨rfl, by decide⟩
  · exact endsNumeral_cons.mpr ⟨rfl, by decide⟩
  · exact endsNumeral_cons.mpr ⟨rfl, by decide⟩

theorem digitValue_of_isDigit
    {base : Nat}
    {c : Char}
    (digit : isDigit base c = true) :
    digitValue c ≠ none := by
  intro missing
  rw [isDigit, missing] at digit
  cases digit

/-- A digit is not white space. -/
theorem isSpace_of_isDigit
    {base : Nat}
    {c : Char}
    (digit : isDigit base c = true) :
    isSpace c = false := by
  refine Bool.eq_false_iff.mpr fun space => digitValue_of_isDigit digit ?_
  unfold isSpace at space
  simp only [Bool.or_eq_true, decide_eq_true_eq] at space
  rcases space with ((((rfl | rfl) | rfl) | rfl) | rfl) | rfl <;> decide

/-- A numeral does not begin with white space. -/
theorem Numeral.stops_isSpace (numeral : Numeral base) (rest : List Char) :
    Stops isSpace (numeral.digits ++ rest) := by
  cases digits : numeral.digits with
  | nil => exact absurd digits numeral.nonempty
  | cons c others =>
      have first : c ∈ numeral.digits := by simp [digits]
      exact isSpace_of_isDigit (numeral.valid c first)

/-- A digit is no sign. -/
theorem takeSign_of_isDigit
    {base : Nat}
    {c : Char}
    (digit : isDigit base c = true)
    (rest : List Char) :
    takeSign (c :: rest) = (false, c :: rest) := by
  unfold takeSign
  split
  · next same =>
    cases same
    exact absurd rfl (digitValue_of_isDigit digit)
  · next same =>
    cases same
    exact absurd rfl (digitValue_of_isDigit digit)
  · rfl

/-- Digits do not begin with the prefix of base sixteen. -/
theorem dropPrefix_of_digits
    {base : Nat}
    {digits rest : List Char}
    (valid : ∀ c ∈ digits, isDigit base c = true)
    (nonempty : digits ≠ [])
    (ends : EndsNumeral base rest) :
    dropPrefix base (digits ++ rest) = digits ++ rest := by
  have plain : ∀ c, isDigit base c = true → ¬(c = 'x' ∨ c = 'X') := by
    rintro c digit (rfl | rfl)
    · exact digitValue_of_isDigit digit (by decide)
    · exact digitValue_of_isDigit digit (by decide)
  unfold dropPrefix
  split
  · next c tail same =>
    rw [same]
    apply if_neg
    rintro ⟨-, isPrefix⟩
    cases digits with
    | nil => exact nonempty rfl
    | cons zero others =>
        obtain ⟨-, same⟩ := List.cons.inj same
        cases others with
        | nil =>
            have atEnd : rest = c :: tail := same
            subst atEnd
            exact (endsNumeral_cons.mp ends).2 isPrefix
        | cons other others =>
            obtain ⟨rfl, -⟩ := List.cons.inj same
            exact plain other (valid other (by simp)) isPrefix
  · rfl

/-- A numeral is read back as its value. -/
theorem read_integer
    (numeral : Numeral base)
    {rest : List Char}
    (ends : EndsNumeral base rest) :
    (Directive.integer base).read (numeral.digits ++ rest) =
      .ok ([.integer numeral.value], rest) := by
  obtain ⟨digits, nonempty, valid, fits⟩ := numeral
  have stops : Stops (isDigit base) rest := by
    cases rest with
    | nil => trivial
    | cons c rest => exact (endsNumeral_cons.mp ends).1
  have taken := takeWhile_append valid stops
  have left := dropWhile_append valid stops
  have unprefixed := dropPrefix_of_digits valid nonempty ends
  cases digits with
  | nil => exact absurd rfl nonempty
  | cons digit digits =>
      have first : isDigit base digit = true := valid digit (by simp)
      have visible : Stops isSpace (digit :: digits ++ rest) := isSpace_of_isDigit first
      unfold Directive.read
      dsimp only
      rw [dropWhile_of_stops visible]
      rw [List.cons_append] at taken left unprefixed ⊢
      unfold readInteger
      dsimp only
      rw [takeSign_of_isDigit first]
      dsimp only
      rw [unprefixed, taken, left]
      unfold strtoull Numeral.value
      dsimp only
      rw [if_pos fits, if_neg Bool.false_ne_true]

/-- A word of the full width is read back. -/
theorem read_word
    {word : List Char}
    (nonempty : word ≠ [])
    (visible : ∀ c ∈ word, isSpace c = false)
    (rest : List Char) :
    (Directive.word word.length).read (word ++ rest) = .ok ([.text word], rest) := by
  have taken : ((word ++ rest).take word.length).takeWhile (!isSpace ·) = word := by
    rw [List.take_left, List.takeWhile_eq_self_iff]
    intro c member
    rw [visible c member]
    rfl
  cases word with
  | nil => exact absurd rfl nonempty
  | cons c word =>
      have first : Stops isSpace (c :: word ++ rest) := visible c (by simp)
      unfold Directive.read
      dsimp only
      rw [dropWhile_of_stops first]
      rw [List.cons_append] at taken ⊢
      dsimp only
      rw [taken, ← List.cons_append, List.drop_left]

/-- The rest of a line is read back. -/
theorem read_line
    {chars rest : List Char}
    (nonempty : chars ≠ [])
    (inLine : ∀ c ∈ chars, c ≠ '\n')
    (ends : Stops (· ≠ '\n') rest) :
    Directive.line.read (chars ++ rest) = .ok ([.text chars], rest) := by
  have all : ∀ c ∈ chars, (decide (c ≠ '\n')) = true := by
    intro c member
    exact decide_eq_true (inLine c member)
  have taken := takeWhile_append all ends
  have left := dropWhile_append all ends
  cases chars with
  | nil => exact absurd rfl nonempty
  | cons c chars =>
      unfold Directive.read
      rw [List.cons_append] at taken left ⊢
      dsimp only
      rw [taken, left]

/-! ## What a scan leaves -/

theorem takeSign_suffix (input : List Char) : (takeSign input).2 <:+ input := by
  unfold takeSign
  split
  · exact List.suffix_cons _ _
  · exact List.suffix_cons _ _
  · exact List.suffix_rfl

theorem dropPrefix_suffix (base : Nat) (input : List Char) : dropPrefix base input <:+ input := by
  unfold dropPrefix
  split
  · split
    · exact (List.suffix_cons _ _).trans (List.suffix_cons _ _)
    · exact List.suffix_rfl
  · exact List.suffix_rfl

theorem readInteger_suffix
    {base : Nat}
    {input rest : List Char}
    {items : List Item}
    (read : readInteger base input = .ok (items, rest)) :
    rest <:+ input := by
  unfold readInteger at read
  dsimp only at read
  split at read
  · cases read
  · cases read
    exact (List.dropWhile_suffix _).trans ((dropPrefix_suffix base _).trans (takeSign_suffix input))

/-- What a directive leaves is the end of the input. -/
theorem Directive.read_suffix
    {directive : Directive}
    {input rest : List Char}
    {items : List Item}
    (read : directive.read input = .ok (items, rest)) :
    rest <:+ input := by
  cases directive with
  | space =>
      cases read
      exact List.dropWhile_suffix _
  | literal c =>
      unfold Directive.read at read
      dsimp only at read
      split at read
      · cases read
      · split at read
        · cases read
          exact List.suffix_cons _ _
        · cases read
  | integer base =>
      unfold Directive.read at read
      dsimp only at read
      split at read
      · cases read
      · next visible =>
          rw [← visible] at read
          exact (readInteger_suffix read).trans (List.dropWhile_suffix _)
  | word width =>
      unfold Directive.read at read
      dsimp only at read
      split at read
      · cases read
      · next visible =>
          cases read
          rw [← visible]
          exact (List.drop_suffix _ _).trans (List.dropWhile_suffix _)
  | line =>
      unfold Directive.read at read
      dsimp only at read
      split at read
      · cases read
      · split at read
        · cases read
        · cases read
          exact List.dropWhile_suffix _

/-- What a scan leaves is the end of the input. -/
theorem scan_suffix
    {format : List Directive}
    {input rest : List Char}
    (scanned : (scan format input).2 = .ok rest) :
    rest <:+ input := by
  induction format generalizing input with
  | nil =>
      cases scanned
      exact List.suffix_rfl
  | cons directive format inductionHypothesis =>
      unfold scan at scanned
      split at scanned
      · cases scanned
      · next read => exact (inductionHypothesis scanned).trans (Directive.read_suffix read)

/-- A format that ends with the rest of a line stores characters of the input
before an end of a line. -/
theorem scan_line_infix
    {format : List Directive}
    {input rest : List Char}
    (scanned : (scan (format ++ [.line]) input).2 = .ok rest) :
    ∃ before chars, (scan (format ++ [.line]) input).1 = before ++ [.text chars] ∧
      chars <:+: input ∧ ∀ c ∈ chars, c ≠ '\n' := by
  induction format generalizing input with
  | nil =>
      cases read : Directive.line.read input with
      | error stop =>
          rw [List.nil_append, scan, read] at scanned
          cases scanned
      | ok result =>
          rw [List.nil_append, scan, read]
          unfold Directive.read at read
          dsimp only at read
          split at read
          · cases read
          · next c others =>
              split at read
              · cases read
              · cases read
                refine ⟨[], _, rfl, (List.takeWhile_prefix _).isInfix, fun c member => ?_⟩
                have inLine := List.mem_takeWhile_imp member
                exact of_decide_eq_true inLine
  | cons directive format inductionHypothesis =>
      rw [List.cons_append, scan] at scanned ⊢
      cases read : directive.read input with
      | error stop =>
          rw [read] at scanned
          cases scanned
      | ok result =>
          rw [read] at scanned
          obtain ⟨before, chars, items, inside, inLine⟩ := inductionHypothesis scanned
          refine ⟨result.1 ++ before, chars, ?_, ?_, inLine⟩
          · rw [List.append_assoc, ← items]
          · exact inside.trans (Directive.read_suffix read).isInfix

end Scanf
end Foundations
