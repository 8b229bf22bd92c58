import EbpfHub.Foundations.Chunks
import EbpfHub.Symbols.Kallsyms

/-!
# Which kernel functions can be probed

`kprobe_exists` and `is_kernel_module` of `trace_helpers.c` look for a name in
files of the kernel.  The first takes the word of a file only when those before
it in the order of its search do not settle the question; the second reads lines
through a buffer of 64 bytes.
-/

namespace EbpfHub
namespace Symbols

open Foundations
open Foundations.Scanf (Item Directive eachRecord records isSpace)

/-! ## The loops over the files -/

/-- `"%s %s"`.  No word is longer than the file. -/
def blacklistFormat (length : Nat) : List Directive :=
  [.word (length + 1), .space, .word (length + 1)]

/-- `"%s"`. -/
def filterFormat (length : Nat) : List Directive := [.word (length + 1)]

/-- A word that fits into the buffers. -/
structure Word where
  chars : List Char
  nonempty : chars ≠ []
  visible : ∀ c ∈ chars, isSpace c = false
  clean : nul ∉ chars
  short : chars.length < symNameSize

/-- What may follow the last word of a line that is scanned: a blank and the rest
of the line, or nothing. -/
structure Tail where
  chars : List Char
  separate : Scanf.Stops (!isSpace ·) chars
  inLine : ∀ c ∈ chars, c ≠ '\n'

/-- A line of the blacklist.  The separator is a blank or a tab. -/
structure BlacklistLine where
  addrRange : Word
  separator : Char
  separator_blank : isSpace separator = true
  symName : Word
  tail : Tail

/-- A line of the functions that can be traced. -/
structure FilterLine where
  symName : Word
  tail : Tail

/-- A word does not begin with white space. -/
theorem Word.stops_isSpace (word : Word) (rest : List Char) :
    Scanf.Stops isSpace (word.chars ++ rest) := by
  cases chars : word.chars with
  | nil => exact absurd chars word.nonempty
  | cons c others => exact word.visible c (by simp [chars])

/-- The lines of the blacklist. -/
def BlacklistLine.kind : Scanf.LineFormat BlacklistLine where
  format := blacklistFormat
  consumes := fun length => Nat.succ_pos length
  body := fun line => line.addrRange.chars ++ line.separator :: line.symName.chars
  tail := fun line => line.tail.chars
  items := fun line => [.text line.addrRange.chars, .text line.symName.chars]
  inLine := fun line => line.tail.inLine
  scanned := by
    intro line length rest long
    rw [List.length_append, List.length_cons] at long
    have separated : Scanf.Stops (!isSpace ·) (line.separator ::
        (line.symName.chars ++ (line.tail.chars ++ '\n' :: rest))) := by
      change (!isSpace line.separator) = false
      rw [line.separator_blank]
      rfl
    rw [List.append_assoc, List.cons_append]
    unfold blacklistFormat
    apply Scanf.scan_cons (Scanf.read_word_of_stops line.addrRange.nonempty line.addrRange.visible
      (by omega) separated)
    apply Scanf.scan_cons (Scanf.read_blank line.separator_blank (line.symName.stops_isSpace _))
    apply Scanf.scan_cons (Scanf.read_word_of_stops line.symName.nonempty line.symName.visible
      (by omega) (Scanf.stops_append_newline line.tail.separate rest))
    rfl

/-- The lines of the functions that can be traced. -/
def FilterLine.kind : Scanf.LineFormat FilterLine where
  format := filterFormat
  consumes := fun length => Nat.succ_pos length
  body := fun line => line.symName.chars
  tail := fun line => line.tail.chars
  items := fun line => [.text line.symName.chars]
  inLine := fun line => line.tail.inLine
  scanned := by
    intro line length rest long
    unfold filterFormat
    apply Scanf.scan_cons (Scanf.read_word_of_stops line.symName.nonempty line.symName.visible
      (Nat.le_succ_of_le long) (Scanf.stops_append_newline line.tail.separate rest))
    rfl

section Files

variable {kernel : Kernel}

end Files

/-- A word of three letters. -/
def threeLetters (chars : List Char) (three : chars.length = 3)
    (plain : chars.all fun c => !isSpace c && c ≠ nul) : Word where
  chars := chars
  nonempty := fun empty => by rw [empty] at three; cases three
  visible := by
    intro c member
    have kept := List.all_eq_true.mp plain c member
    simp only [Bool.and_eq_true, Bool.not_eq_true'] at kept
    exact kept.1
  clean := by
    intro member
    have kept := List.all_eq_true.mp plain nul member
    simp at kept
  short := by rw [three]; decide

/-- What `sscanf` with `"%s %*s\n"` stores, `none` when it stores nothing. -/
def firstWord (buf : List Char) : Option Name :=
  match (buf.takeWhile (· ≠ nul)).dropWhile isSpace with
  | [] => none
  | c :: rest => some ((c :: rest).takeWhile (!isSpace ·))

/-- The characters that `fgets` reads at most into `buf`. -/
def bufChars : Nat := 63

/-- The loop of `is_kernel_module`. -/
def moduleLoop (name : Name) : Nat → List Char → Bool
  | 0, _ => false
  | _ + 1, [] => false
  | passes + 1, input =>
      match firstWord (Chunks.read '\n' bufChars input).1 with
      | none => false
      | some word =>
          if strcmp word name = 0 then true
          else moduleLoop name passes (Chunks.read '\n' bufChars input).2

/-- `is_kernel_module`, for the content of `/proc/modules`, `none` when it cannot
be opened.  The loop makes one pass more than there are characters. -/
def isKernelModule (content : Option (List Char)) (name : Name) : Bool :=
  match content with
  | none => false
  | some content => moduleLoop name (content.length + 1) content

/-- A line of `/proc/modules`. -/
structure ModuleLine where
  name : Word
  tail : Tail
  tail_clean : nul ∉ tail.chars

namespace ModuleLine

/-- The characters of a line before its end. -/
def chars (line : ModuleLine) : List Char := line.name.chars ++ line.tail.chars

/-- The text of lines. -/
def text (lines : List ModuleLine) : List Char := lines.flatMap fun line => line.chars ++ ['\n']

/-- A word holds no newline. -/
theorem notMem_chars (line : ModuleLine) : '\n' ∉ line.chars := by
  intro member
  rcases List.mem_append.mp member with inName | inTail
  · exact absurd (line.name.visible '\n' inName) (by decide)
  · exact line.tail.inLine '\n' inTail rfl

/-- The first word of what is read of a line is the name of the module. -/
theorem firstWord_chars
    (line : ModuleLine)
    {rest : List Char}
    (separate : Scanf.Stops (!isSpace ·) rest)
    (clean : nul ∉ rest) :
    firstWord (line.chars ++ rest) = some line.name.chars := by
  have whole : (line.chars ++ rest).takeWhile (· ≠ nul) = line.chars ++ rest := by
    refine List.takeWhile_eq_self_iff.mpr fun c member => decide_eq_true fun same => ?_
    subst same
    rcases List.mem_append.mp member with inLine | inRest
    · rcases List.mem_append.mp inLine with inName | inTail
      · exact line.name.clean inName
      · exact line.tail_clean inTail
    · exact clean inRest
  have tailSeparate : Scanf.Stops (!isSpace ·) (line.tail.chars ++ rest) := by
    have separateTail := line.tail.separate
    cases tail : line.tail.chars with
    | nil => exact separate
    | cons c others =>
        rw [tail] at separateTail
        exact separateTail
  have kept : ∀ c ∈ line.name.chars, (!isSpace c) = true := by
    intro c member
    rw [line.name.visible c member]
    rfl
  have word : (line.chars ++ rest).takeWhile (!isSpace ·) = line.name.chars := by
    rw [chars, List.append_assoc]
    exact Scanf.takeWhile_append kept tailSeparate
  have starts : (line.chars ++ rest).dropWhile isSpace = line.chars ++ rest := by
    rw [chars, List.append_assoc]
    exact Scanf.dropWhile_of_stops (line.name.stops_isSpace _)
  unfold firstWord
  rw [whole, starts]
  cases content : line.chars ++ rest with
  | nil =>
      have empty := congrArg List.length content
      have positive := List.length_pos_iff.mpr line.name.nonempty
      rw [chars, List.length_append, List.length_append, List.length_nil] at empty
      omega
  | cons c others =>
      dsimp only
      rw [← content, word]

/-- A pass over a chunk that begins with a word. -/
theorem moduleLoop_iff
    {input chunk more : List Char}
    {word : Name}
    (nonempty : input ≠ [])
    (read : Chunks.read '\n' bufChars input = (chunk, more))
    (first : firstWord chunk = some word)
    (name : Name)
    (passes : Nat) :
    moduleLoop name (passes + 1) input = true ↔
      word = name ∨ moduleLoop name passes more = true := by
  cases input with
  | nil => exact absurd rfl nonempty
  | cons c others =>
      rw [moduleLoop.eq_3 _ _ _ nonempty, read]
      dsimp only
      rw [first]
      dsimp only
      by_cases same : word = name
      · rw [if_pos (strcmp_eq_zero_iff.mpr same)]
        exact iff_of_true rfl (.inl same)
      · rw [if_neg (mt strcmp_eq_zero_iff.mp same), or_iff_right same]

/-- The loop over lines that fit into the buffer finds the names of these, and
goes on with what follows. -/
theorem moduleLoop_text
    {lines : List ModuleLine}
    (short : ∀ line ∈ lines, line.chars.length < bufChars)
    (name : Name)
    (passes : Nat)
    (more : List Char) :
    moduleLoop name (lines.length + passes) (text lines ++ more) = true ↔
      (∃ line ∈ lines, line.name.chars = name) ∨ moduleLoop name passes more = true := by
  induction lines with
  | nil => simp [text]
  | cons line lines inductionHypothesis =>
      obtain ⟨first, others⟩ := List.forall_mem_cons.mp short
      have split : text (line :: lines) ++ more = line.chars ++ '\n' :: (text lines ++ more) := by
        simp [text]
      have count : (line :: lines).length + passes = lines.length + passes + 1 := by
        rw [List.length_cons]
        omega
      have read := Chunks.read_of_short line.notMem_chars first (text lines ++ more)
      have word : firstWord (line.chars ++ ['\n']) = some line.name.chars :=
        line.firstWord_chars rfl (by decide)
      rw [split, count, moduleLoop_iff (by simp) read word, inductionHypothesis others,
        List.exists_mem_cons_iff, or_assoc]

theorem length_le_text (lines : List ModuleLine) : lines.length ≤ (text lines).length := by
  induction lines with
  | nil => exact Nat.le_refl 0
  | cons line lines inductionHypothesis =>
      have split : text (line :: lines) = line.chars ++ '\n' :: text lines := by
        simp [text]
      rw [split, List.length_append, List.length_cons, List.length_cons]
      omega

end ModuleLine

/-- On lines shorter than 63 characters `is_kernel_module` holds of the modules
that they name.  Behind a line of exactly 63 characters it finds no module, since
the end of that line alone fills the buffer next. -/
theorem is_kernel_module_lines
    (lines : List ModuleLine)
    (short : ∀ line ∈ lines, line.chars.length < bufChars)
    (name : Name) :
    (isKernelModule (some (ModuleLine.text lines)) name = true ↔
      ∃ line ∈ lines, line.name.chars = name) ∧
    ∀ full : ModuleLine, full.chars.length = bufChars → ∀ later : List Char,
      (isKernelModule (some (ModuleLine.text lines ++ (full.chars ++ '\n' :: later))) name = true ↔
        ∃ line ∈ lines ++ [full], line.name.chars = name) := by
  have fewer := ModuleLine.length_le_text lines
  refine ⟨?_, ?_⟩
  · obtain ⟨passes, enough⟩ : ∃ passes, (ModuleLine.text lines).length + 1 =
        lines.length + passes := Nat.exists_eq_add_of_le (Nat.le_succ_of_le fewer)
    have found := ModuleLine.moduleLoop_text short name passes []
    have atEnd : moduleLoop name passes [] = false := by
      cases passes with
      | zero => rfl
      | succ passes => rfl
    rw [List.append_nil, atEnd, or_iff_left Bool.false_ne_true] at found
    unfold isKernelModule
    dsimp only
    rw [enough]
    exact found
  · intro full exact later
    have total : (ModuleLine.text lines ++ (full.chars ++ '\n' :: later)).length + 1 =
        lines.length + ((ModuleLine.text lines).length - lines.length +
          (full.chars.length + later.length) + 1 + 1) := by
      rw [List.length_append, List.length_append, List.length_cons]
      omega
    have read := Chunks.read_of_long full.notMem_chars ('\n' :: later)
    rw [exact] at read
    have word : firstWord (full.chars ++ []) = some full.name.chars :=
      full.firstWord_chars trivial List.not_mem_nil
    rw [List.append_nil] at word
    have blank : ∀ passes, moduleLoop name (passes + 1) ('\n' :: later) = false :=
      fun passes => rfl
    unfold isKernelModule
    dsimp only
    rw [total, ModuleLine.moduleLoop_text short, ModuleLine.moduleLoop_iff (by simp) read word,
      blank, or_iff_left Bool.false_ne_true]
    simp only [List.mem_append, List.mem_singleton, or_and_right, exists_or, exists_eq_left]

/-- A module with its size. -/
def extModule : ModuleLine where
  name := threeLetters ['e', 'x', 't'] rfl rfl
  tail := ⟨[' ', '9'], rfl, by simp⟩
  tail_clean := by simp [nul]

/-- The module is found by its name. -/
theorem is_kernel_module_lines_extModule :
    isKernelModule (some (ModuleLine.text [extModule])) ['e', 'x', 't'] = true :=
  (is_kernel_module_lines [extModule] (by decide) ['e', 'x', 't']).1.mpr
    ⟨extModule, List.mem_cons_self, rfl⟩

end Symbols
end EbpfHub
