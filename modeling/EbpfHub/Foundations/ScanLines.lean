import EbpfHub.Foundations.Scanf

/-!
# Loops that scan the records of a file

A loop calls `fscanf` until the input ends, with a format whose last directives
skip the rest of the line, and hands the items of every record to its body.
With enough passes it is a fold of its body over the records of the file.
-/

namespace Foundations
namespace Scanf

/-! ## One record -/

/-- `"%*[^\\n]\\n"` at the end of a format, which nothing depends on when it
does not match. -/
def skipLine (input : List Char) : List Char :=
  match Directive.line.read input with
  | .ok (_, rest) => rest.dropWhile isSpace
  | .error _ => input

/-- What a call of `fscanf` makes of the input. -/
inductive Record
  /-- `EOF` before the first item. -/
  | atEnd
  /-- Not all of the items. -/
  | malformed
  /-- All of the items, and the rest of the input. -/
  | complete (items : List Item) (rest : List Char)
  deriving DecidableEq

/-- A call of `fscanf` with a format that ends by skipping the line. -/
def scanRecord (format : List Directive) (input : List Char) : Record :=
  match scan format input with
  | (items, .ok rest) => .complete items (skipLine rest)
  | ([], .error .eof) => .atEnd
  | _ => .malformed

/-- The directive skips white space and then reads at least a character. -/
def Directive.Consumes : Directive → Prop
  | .integer _ => True
  | .word width => 0 < width
  | _ => False

/-- The first directive of the format consumes something. -/
def Consumes : List Directive → Prop
  | [] => False
  | directive :: _ => directive.Consumes

/-! ## What is left is shorter -/

theorem length_dropWhile_le (p : α → Bool) (input : List α) :
    (input.dropWhile p).length ≤ input.length :=
  (List.dropWhile_sublist p).length_le

/-- White space that has been skipped does not come again. -/
theorem stops_dropWhile (p : Char → Bool) (input : List Char) : Stops p (input.dropWhile p) := by
  have head := List.head?_dropWhile_not p input
  cases rest : input.dropWhile p with
  | nil => trivial
  | cons c others =>
      rw [rest] at head
      exact Bool.eq_false_iff.mpr fun space => by simp [space] at head

theorem length_takeSign_le (input : List Char) :
    (takeSign input).2.length ≤ input.length := by
  unfold takeSign
  split <;> simp

theorem length_dropPrefix_le (base : Nat) (input : List Char) :
    (dropPrefix base input).length ≤ input.length := by
  unfold dropPrefix
  split
  · split
    · simp only [List.length_cons]
      omega
    · exact Nat.le_refl _
  · exact Nat.le_refl _

/-- An integer leaves less than there was. -/
theorem length_lt_of_readInteger
    {base : Nat}
    {input rest : List Char}
    {items : List Item}
    (read : readInteger base input = .ok (items, rest)) :
    rest.length < input.length := by
  have signed := length_takeSign_le input
  have prefixed := length_dropPrefix_le base (takeSign input).2
  unfold readInteger at read
  dsimp only at read
  split at read
  · cases read
  · next digit digits taken =>
    cases read
    have split := congrArg List.length
      (List.takeWhile_append_dropWhile (p := isDigit base)
        (l := dropPrefix base (takeSign input).2))
    rw [taken, List.length_append, List.length_cons] at split
    omega

/-- No directive lengthens the input. -/
theorem Directive.length_le_of_read
    {directive : Directive}
    {input rest : List Char}
    {items : List Item}
    (read : directive.read input = .ok (items, rest)) :
    rest.length ≤ input.length := by
  have skipped := length_dropWhile_le isSpace input
  cases directive with
  | space =>
      obtain ⟨-, rfl⟩ := Prod.mk.inj (Except.ok.inj read)
      exact skipped
  | literal c =>
      unfold Directive.read at read
      cases input with
      | nil => cases read
      | cons d input =>
          dsimp only at read
          split at read
          · cases read
            simp
          · cases read
  | integer base =>
      unfold Directive.read at read
      dsimp only at read
      split at read
      · cases read
      · next c others visible =>
        rw [visible] at skipped
        exact Nat.le_trans (Nat.le_of_lt (length_lt_of_readInteger read)) skipped
  | word width =>
      unfold Directive.read at read
      dsimp only at read
      split at read
      · cases read
      · next c others visible =>
        rw [visible] at skipped
        cases read
        rw [List.length_drop]
        omega
  | line =>
      unfold Directive.read at read
      cases input with
      | nil => cases read
      | cons d input =>
          dsimp only at read
          split at read
          · cases read
          · cases read
            exact length_dropWhile_le _ _

/-- A directive that consumes leaves less than there was. -/
theorem Directive.length_lt_of_read
    {directive : Directive}
    {input rest : List Char}
    {items : List Item}
    (consumes : directive.Consumes)
    (read : directive.read input = .ok (items, rest)) :
    rest.length < input.length := by
  have skipped := length_dropWhile_le isSpace input
  cases directive with
  | space => cases consumes
  | literal c => cases consumes
  | line => cases consumes
  | integer base =>
      unfold Directive.read at read
      dsimp only at read
      split at read
      · cases read
      · next c others visible =>
        rw [visible] at skipped
        exact Nat.lt_of_lt_of_le (length_lt_of_readInteger read) skipped
  | word width =>
      have positive : 0 < width := consumes
      have stops := stops_dropWhile isSpace input
      unfold Directive.read at read
      dsimp only at read
      split at read
      · cases read
      · next c others visible =>
        rw [visible] at skipped stops
        cases read
        obtain ⟨width, rfl⟩ := Nat.exists_eq_add_one_of_ne_zero (Nat.ne_of_gt positive)
        have first : isSpace c = false := stops
        rw [List.take_succ_cons, List.takeWhile_cons_of_pos (by simp [first]), List.length_cons,
          List.drop_succ_cons, List.length_drop]
        rw [List.length_cons] at skipped
        omega

/-- A call that gets all items leaves less than there was. -/
theorem length_lt_of_scanRecord
    {format : List Directive}
    {input rest : List Char}
    {items : List Item}
    (consumes : Consumes format)
    (scanned : scanRecord format input = .complete items rest) :
    rest.length < input.length := by
  have scanLe : ∀ (format : List Directive) {input rest : List Char} {items : List Item},
      scan format input = (items, .ok rest) → rest.length ≤ input.length := by
    intro format
    induction format with
    | nil =>
        intro input rest items scanned
        cases scanned
        exact Nat.le_refl _
    | cons directive format inductionHypothesis =>
        intro input rest items scanned
        unfold scan at scanned
        split at scanned
        · cases scanned
        · next first middle read =>
          have later : scan format middle = ((scan format middle).1, .ok rest) :=
            Prod.ext rfl (Prod.mk.inj scanned).2
          exact Nat.le_trans (inductionHypothesis later) (Directive.length_le_of_read read)
  have skipLe : ∀ input : List Char, (skipLine input).length ≤ input.length := by
    intro input
    unfold skipLine
    split
    · next read =>
      exact Nat.le_trans (length_dropWhile_le _ _) (Directive.length_le_of_read read)
    · exact Nat.le_refl _
  cases format with
  | nil => cases consumes
  | cons directive format =>
      unfold scanRecord scan at scanned
      cases read : directive.read input with
      | error stop =>
          rw [read] at scanned
          cases stop <;> cases scanned
      | ok pair =>
          obtain ⟨first, middle⟩ := pair
          have shorter := Directive.length_lt_of_read consumes read
          rw [read] at scanned
          cases ended : (scan format middle).2 with
          | error stop =>
              simp only [ended] at scanned
              split at scanned <;> simp_all
          | ok last =>
              simp only [ended] at scanned
              cases scanned
              have later : scan format middle = ((scan format middle).1, .ok last) :=
                Prod.ext rfl ended
              exact Nat.lt_of_le_of_lt (Nat.le_trans (skipLe last) (scanLe format later)) shorter

/-! ## The loop -/

/-- The loop, with the number of calls that it may make.  The body may return
from the function, and so may what follows a malformed record. -/
def eachRecord
    (format : List Directive)
    (body : σ → List Item → Except ρ σ)
    (malformed : σ → Except ρ σ) : Nat → List Char → σ → Option (Except ρ σ)
  | 0, _, _ => none
  | calls + 1, input, state =>
      match scanRecord format input with
      | .atEnd => some (.ok state)
      | .malformed => some (malformed state)
      | .complete items rest =>
          match body state items with
          | .error result => some (.error result)
          | .ok state => eachRecord format body malformed calls rest state

/-- The records of a file, and whether they reach to its end. -/
def records (format : List Directive) : Nat → List Char → Option (List (List Item) × Bool)
  | 0, _ => none
  | calls + 1, input =>
      match scanRecord format input with
      | .atEnd => some ([], true)
      | .malformed => some ([], false)
      | .complete items rest =>
          (records format calls rest).map fun later => (items :: later.1, later.2)

/-- A call for each character and one more are enough. -/
theorem records_isSome
    {format : List Directive}
    (consumes : Consumes format)
    {calls : Nat}
    {input : List Char}
    (enough : input.length < calls) :
    (records format calls input).isSome := by
  induction calls generalizing input with
  | zero => omega
  | succ calls inductionHypothesis =>
      unfold records
      cases scanned : scanRecord format input with
      | atEnd => rfl
      | malformed => rfl
      | complete items rest =>
          have shorter := length_lt_of_scanRecord consumes scanned
          rw [Option.isSome_map]
          exact inductionHypothesis (by omega)

/-- The loop folds its body over the records. -/
theorem eachRecord_eq
    {format : List Directive}
    (body : σ → List Item → Except ρ σ)
    (malformed : σ → Except ρ σ)
    {calls : Nat}
    {input : List Char}
    {found : List (List Item) × Bool}
    (scanned : records format calls input = some found)
    (state : σ) :
    eachRecord format body malformed calls input state =
      some (found.1.foldlM body state >>= fun state =>
        if found.2 then .ok state else malformed state) := by
  induction calls generalizing input found state with
  | zero => cases scanned
  | succ calls inductionHypothesis =>
      unfold records at scanned
      unfold eachRecord
      cases once : scanRecord format input with
      | atEnd =>
          rw [once] at scanned
          cases scanned
          rfl
      | malformed =>
          rw [once] at scanned
          cases scanned
          rfl
      | complete items rest =>
          rw [once] at scanned
          obtain ⟨later, scannedLater, rfl⟩ := Option.map_eq_some_iff.mp scanned
          dsimp only
          rw [List.foldlM_cons]
          cases body state items with
          | error result => rfl
          | ok state => exact inductionHypothesis scannedLater state

/-! ## What has been written is read back -/

/-- White space in front of a record is skipped. -/
theorem scanRecord_dropWhile
    {format : List Directive}
    (consumes : Consumes format)
    (input : List Char) :
    scanRecord format (input.dropWhile isSpace) = scanRecord format input := by
  have again : (input.dropWhile isSpace).dropWhile isSpace = input.dropWhile isSpace :=
    dropWhile_of_stops (stops_dropWhile isSpace input)
  cases format with
  | nil => cases consumes
  | cons directive format =>
      have same : directive.read (input.dropWhile isSpace) = directive.read input := by
        cases directive with
        | space => cases consumes
        | literal c => cases consumes
        | line => cases consumes
        | integer base =>
            unfold Directive.read
            rw [again]
        | word width =>
            unfold Directive.read
            rw [again]
      unfold scanRecord scan
      rw [same]

theorem records_dropWhile
    {format : List Directive}
    (consumes : Consumes format)
    (calls : Nat)
    (input : List Char) :
    records format calls (input.dropWhile isSpace) = records format calls input := by
  cases calls with
  | zero => rfl
  | succ calls =>
      unfold records
      rw [scanRecord_dropWhile consumes]

/-- What follows the last item of a line is skipped together with the end of the
line, up to white space. -/
theorem dropWhile_skipLine
    {tail rest : List Char}
    (inLine : ∀ c ∈ tail, c ≠ '\n') :
    (skipLine (tail ++ '\n' :: rest)).dropWhile isSpace = rest.dropWhile isSpace := by
  have newline : ('\n' :: rest).dropWhile isSpace = rest.dropWhile isSpace :=
    List.dropWhile_cons_of_pos (by decide)
  cases tail with
  | nil => exact newline
  | cons c tail =>
      have read := read_line (List.cons_ne_nil c tail) inLine
        (show Stops (· ≠ '\n') ('\n' :: rest) by rfl)
      unfold skipLine
      rw [read]
      dsimp only
      rw [newline]
      exact dropWhile_of_stops (stops_dropWhile isSpace rest)

/-- After a directive that is satisfied the scan goes on with the rest. -/
theorem scan_of_read
    {directive : Directive}
    {format : List Directive}
    {input middle : List Char}
    {items : List Item}
    (satisfied : directive.read input = .ok (items, middle)) :
    scan (directive :: format) input =
      (items ++ (scan format middle).1, (scan format middle).2) := by
  rw [scan, satisfied]

/-- Any white space is skipped before what is not one. -/
theorem read_blank
    {c : Char}
    (blank : isSpace c = true)
    {rest : List Char}
    (stops : Stops isSpace rest) :
    Directive.space.read (c :: rest) = .ok ([], rest) := by
  rw [Directive.read, List.dropWhile_cons_of_pos blank, dropWhile_of_stops stops]

/-- A word that white space follows is read back if it is not too long. -/
theorem read_word_of_stops
    {word rest : List Char}
    {width : Nat}
    (nonempty : word ≠ [])
    (visible : ∀ c ∈ word, isSpace c = false)
    (short : word.length ≤ width)
    (ends : Stops (!isSpace ·) rest) :
    (Directive.word width).read (word ++ rest) = .ok ([.text word], rest) := by
  have kept : ∀ c ∈ word, (!isSpace c) = true := by
    intro c member
    rw [visible c member]
    rfl
  have taken : ((word ++ rest).take width).takeWhile (!isSpace ·) = word := by
    rw [List.take_append, List.take_of_length_le short]
    refine takeWhile_append kept ?_
    cases rest with
    | nil =>
        rw [List.take_nil]
        trivial
    | cons c rest =>
        cases width - word.length with
        | zero => trivial
        | succ more => exact ends
  cases word with
  | nil => exact absurd rfl nonempty
  | cons c word =>
      have first : Stops isSpace (c :: word ++ rest) := visible c (by simp)
      unfold Directive.read
      dsimp only
      rw [dropWhile_of_stops first]
      rw [List.cons_append] at taken ⊢
      dsimp only
      rw [taken, ← List.cons_append, List.drop_left]

/-- A blank follows a word at the end of a line too. -/
theorem stops_append_newline
    {tail : List Char}
    (separate : Stops (!isSpace ·) tail)
    (rest : List Char) :
    Stops (!isSpace ·) (tail ++ '\n' :: rest) := by
  cases tail with
  | nil => rfl
  | cons c others => exact separate

/-- A line whose items a call gets is the first record of what it begins. -/
theorem records_line
    {format : List Directive}
    (consumes : Consumes format)
    {input tail rest : List Char}
    {items : List Item}
    (scanned : scan format input = (items, .ok (tail ++ '\n' :: rest)))
    (inLine : ∀ c ∈ tail, c ≠ '\n')
    (calls : Nat) :
    records format (calls + 1) input =
      (records format calls rest).map fun later => (items :: later.1, later.2) := by
  have record : scanRecord format input = .complete items (skipLine (tail ++ '\n' :: rest)) := by
    unfold scanRecord
    rw [scanned]
  rw [records, record]
  dsimp only
  rw [← records_dropWhile consumes calls (skipLine _), dropWhile_skipLine inLine,
    records_dropWhile consumes]

/-- At the end of the file there are no more records. -/
theorem records_nil
    {format : List Directive}
    (consumes : Consumes format)
    (calls : Nat) :
    records format (calls + 1) [] = some ([], true) := by
  cases format with
  | nil => cases consumes
  | cons directive format =>
      cases directive with
      | space => cases consumes
      | literal c => cases consumes
      | line => cases consumes
      | integer base => rfl
      | word width => rfl

/-! ## Kinds of lines -/

/-- A kind of line that a format reads back.  The tail is what follows the last
item.  The format is one for words that are no longer than the number. -/
structure LineFormat (α : Type u) where
  format : Nat → List Directive
  consumes : ∀ length, Consumes (format length)
  body : α → List Char
  tail : α → List Char
  items : α → List Item
  inLine : ∀ line, ∀ c ∈ tail line, c ≠ '\n'
  scanned : ∀ line length rest, (body line).length ≤ length →
    scan (format length) (body line ++ (tail line ++ '\n' :: rest)) =
      (items line, .ok (tail line ++ '\n' :: rest))

namespace LineFormat

variable (kind : LineFormat α)

/-- The text of a line. -/
def line (line : α) : List Char := kind.body line ++ (kind.tail line ++ ['\n'])

/-- The text of a file. -/
def text (lines : List α) : List Char := lines.flatMap kind.line

theorem text_cons (line : α) (lines : List α) :
    kind.text (line :: lines) =
      kind.body line ++ (kind.tail line ++ '\n' :: kind.text lines) := by
  simp [text, LineFormat.line]

/-- The lines of a file are its records. -/
theorem records_of_long
    (lines : List α)
    {length calls : Nat}
    (long : ∀ line ∈ lines, (kind.body line).length ≤ length)
    (enough : lines.length < calls) :
    records (kind.format length) calls (kind.text lines) =
      some (lines.map kind.items, true) := by
  induction lines generalizing calls with
  | nil =>
      obtain ⟨calls, rfl⟩ := Nat.exists_eq_add_one_of_ne_zero (Nat.ne_of_gt enough)
      exact records_nil (kind.consumes length) calls
  | cons line lines inductionHypothesis =>
      obtain ⟨first, others⟩ := List.forall_mem_cons.mp long
      rw [List.length_cons] at enough
      obtain ⟨calls, rfl⟩ := Nat.exists_eq_add_one_of_ne_zero (Nat.ne_of_gt
        (Nat.lt_of_le_of_lt (Nat.zero_le _) enough))
      have later := inductionHypothesis others (Nat.lt_of_succ_lt_succ enough)
      have scanned := kind.scanned line length (kind.text lines) first
      rw [kind.text_cons, records_line (kind.consumes length) scanned (kind.inLine line), later]
      rfl

/-- A file has no more lines than characters, and no longer ones. -/
theorem length_text (lines : List α) :
    lines.length ≤ (kind.text lines).length ∧
      ∀ line ∈ lines, (kind.body line).length ≤ (kind.text lines).length := by
  induction lines with
  | nil => exact ⟨Nat.le_refl 0, fun line member => by cases member⟩
  | cons line lines inductionHypothesis =>
      obtain ⟨fewer, longer⟩ := inductionHypothesis
      have split : (kind.text (line :: lines)).length = (kind.body line).length +
          ((kind.tail line).length + ((kind.text lines).length + 1)) := by
        rw [kind.text_cons]
        simp only [List.length_append, List.length_cons]
      rw [split, List.length_cons]
      refine ⟨by omega, ?_⟩
      intro other member
      rcases List.mem_cons.mp member with rfl | later
      · omega
      · have bound := longer other later
        omega

/-- The calls that a file of lines is given suffice for all of them. -/
theorem records_text (lines : List α) :
    records (kind.format (kind.text lines).length) ((kind.text lines).length + 1)
      (kind.text lines) = some (lines.map kind.items, true) := by
  obtain ⟨fewer, longer⟩ := kind.length_text lines
  exact kind.records_of_long lines longer (Nat.lt_succ_of_le fewer)

end LineFormat

end Scanf
end Foundations
