import EbpfHub.Foundations.ScanLines
import EbpfHub.Symbols.Naming
import EbpfHub.Symbols.Mappings

/-!
# Well-formed maps files and what is loaded from them

The lines of a maps file, the mappings that they stand for, and the objects
that a load makes of them: one for each name, with the ranges of its lines.
-/

namespace EbpfHub
namespace Symbols

open Foundations
open Foundations.Scanf

/-! ## Lines -/

/-- A line of a maps file.  The tail is what follows the inode and a blank: the
padding and the name of the object. -/
structure MapsLine where
  startAddr : Numeral 16
  endAddr : Numeral 16
  perm : List Char
  perm_length : perm.length = 4
  perm_visible : ∀ c ∈ perm, isSpace c = false
  perm_clean : nul ∉ perm
  fileOff : Numeral 16
  devMajor : Numeral 16
  devMinor : Numeral 16
  inode : Numeral 10
  tail : List Char
  tail_inLine : ∀ c ∈ tail, c ≠ '\n'
  tail_clean : nul ∉ tail

namespace MapsLine

/-- The text of a line before the rest of the file. -/
def write (line : MapsLine) (rest : List Char) : List Char :=
  line.startAddr.digits ++ '-' :: (line.endAddr.digits ++ ' ' :: (line.perm ++
    ' ' :: (line.fileOff.digits ++ ' ' :: (line.devMajor.digits ++
      ':' :: (line.devMinor.digits ++ ' ' :: (line.inode.digits ++
        ' ' :: (line.tail ++ rest)))))))

/-- The mapping that the line stands for. -/
def map (line : MapsLine) : Map where
  startAddr := line.startAddr.value
  endAddr := line.endAddr.value
  fileOff := line.fileOff.value
  devMajor := line.devMajor.value
  devMinor := line.devMinor.value
  inode := line.inode.value

/-- The name of the object that is mapped. -/
def name (line : MapsLine) : Name := line.tail.dropWhile isSpace

/-- The tail, with the blank before it and a zero behind it, has its place in
the buffer of a line. -/
def Fits (line : MapsLine) : Prop := line.tail.length + 1 < pathMax

instance (line : MapsLine) : Decidable line.Fits := inferInstanceAs (Decidable (_ < _))

/-- The mapping is executable and backed by a file. -/
def mapped (line : MapsLine) : Bool := line.perm[2]? = some 'x' && isFileBacked line.name

end MapsLine

/-- The content is that of a maps file with the lines.  The last line may lack
its end. -/
inductive IsMapsFile : List Char → List MapsLine → Prop
  | nil : IsMapsFile [] []
  | last (line : MapsLine) : IsMapsFile (line.write []) [line]
  | cons (line : MapsLine) {content : List Char} {lines : List MapsLine} :
      IsMapsFile content lines →
      IsMapsFile (line.write ('\n' :: content)) (line :: lines)

/-! ## Reading the lines back -/

/-- The end of a line is skipped before the next one. -/
theorem scanLine_newline (input : List Char) : scanLine ('\n' :: input) = scanLine input := by
  have skipped : (Directive.integer 16).read ('\n' :: input) =
      (Directive.integer 16).read input := by
    unfold Directive.read
    rw [List.dropWhile_cons_of_pos (by decide)]
  unfold scanLine mapsFormat scan
  rw [skipped]

namespace MapsLine

theorem perm_ne_nil (line : MapsLine) : line.perm ≠ [] := by
  intro empty
  have length := line.perm_length
  rw [empty] at length
  cases length

theorem stops_perm (line : MapsLine) (tail : List Char) : Stops isSpace (line.perm ++ tail) := by
  cases perm : line.perm with
  | nil => exact absurd perm line.perm_ne_nil
  | cons c others => exact line.perm_visible c (by simp [perm])

/-- The rest behind the inode has no end of a line. -/
theorem blank_tail_inLine (line : MapsLine) : ∀ c ∈ ' ' :: line.tail, c ≠ '\n' := by
  intro c member
  rcases List.mem_cons.mp member with rfl | inTail
  · decide
  · exact line.tail_inLine c inTail

/-- A line is read back with any room for the word of the permissions. -/
theorem scan_write
    (line : MapsLine)
    {rest : List Char}
    (ends : Stops (· ≠ '\n') rest)
    {length : Nat}
    (room : line.perm.length ≤ length) :
    scan [.integer 16, .literal '-', .integer 16, .space, .word length, .space, .integer 16,
        .space, .integer 16, .literal ':', .integer 16, .space, .integer 10, .line]
        (line.write rest) =
      ([.integer line.startAddr.value, .integer line.endAddr.value, .text line.perm,
        .integer line.fileOff.value, .integer line.devMajor.value, .integer line.devMinor.value,
        .integer line.inode.value, .text (' ' :: line.tail)], .ok rest) := by
  have blank : ∀ base tail, EndsNumeral base (' ' :: tail) :=
    endsNumeral_of_separator (by decide)
  have dash : ∀ tail, EndsNumeral 16 ('-' :: tail) := endsNumeral_of_separator (by decide) 16
  have colon : ∀ tail, EndsNumeral 16 (':' :: tail) := endsNumeral_of_separator (by decide) 16
  have permEnds : ∀ tail, Stops (!isSpace ·) (' ' :: tail) := fun _ => rfl
  apply scan_cons (read_integer line.startAddr (dash _))
  apply scan_cons (read_literal '-' _)
  apply scan_cons (read_integer line.endAddr (blank 16 _))
  apply scan_cons (read_space (line.stops_perm _))
  apply scan_cons (read_word_of_stops line.perm_ne_nil line.perm_visible room (permEnds _))
  apply scan_cons (read_space (line.fileOff.stops_isSpace _))
  apply scan_cons (read_integer line.fileOff (blank 16 _))
  apply scan_cons (read_space (line.devMajor.stops_isSpace _))
  apply scan_cons (read_integer line.devMajor (colon _))
  apply scan_cons (read_literal ':' _)
  apply scan_cons (read_integer line.devMinor (blank 16 _))
  apply scan_cons (read_space (line.inode.stops_isSpace _))
  apply scan_cons (read_integer line.inode (blank 10 _))
  apply scan_cons (read_line (List.cons_ne_nil _ _) line.blank_tail_inLine ends)
  rfl

end MapsLine

/-- A line is read back, or is longer than the buffer. -/
theorem scanLine_write
    (line : MapsLine)
    {rest : List Char}
    (ends : Stops (· ≠ '\n') rest) :
    scanLine (line.write rest) =
      if line.Fits then .line line.map line.perm (' ' :: line.tail) rest else .overflow := by
  have scanned := line.scan_write ends line.perm_length.le
  unfold scanLine mapsFormat
  rw [scanned]
  rfl

/-- The name is found behind the blanks in the buffer. -/
theorem MapsLine.nameIn_tail (line : MapsLine) : nameIn (' ' :: line.tail) = line.name := by
  have whole : (' ' :: line.tail).takeWhile (· ≠ nul) = ' ' :: line.tail := by
    refine List.takeWhile_eq_self_iff.mpr fun c member => decide_eq_true ?_
    rintro rfl
    rcases List.mem_cons.mp member with blank | inTail
    · cases blank
    · exact line.tail_clean inTail
  rw [nameIn, whole]
  exact List.dropWhile_cons_of_pos (by decide)

/-- What the loop does with the mapping of a line. -/
def addLine (system : System) (syms : Syms) (line : MapsLine) : Except LoadError Syms :=
  if ¬line.Fits then .error (.fault .outOfBounds)
  else if line.mapped then addDso system line.map line.name syms
  else .ok syms

/-- A pass over a line adds its mapping. -/
theorem loadLines_write
    (system : System)
    (line : MapsLine)
    {rest : List Char}
    (ends : Stops (· ≠ '\n') rest)
    (passes : Nat)
    (syms : Syms) :
    loadLines system (passes + 1) (line.write rest) syms =
      (addLine system syms line).bind (loadLines system passes rest) := by
  rw [loadLines, scanLine_write line ends]
  unfold addLine
  by_cases fits : line.Fits
  · rw [if_pos fits, if_neg (not_not.mpr fits)]
    unfold MapsLine.mapped
    dsimp only
    rw [line.nameIn_tail]
    by_cases executable : line.perm[2]? = some 'x'
    · rw [if_neg (not_not.mpr executable), decide_eq_true executable, Bool.true_and]
      cases isFileBacked line.name with
      | false => rfl
      | true =>
          simp only [Bool.not_true, Bool.false_eq_true, if_false, if_true]
          cases addDso system line.map line.name syms with
          | error error => rfl
          | ok syms => rfl
    · rw [if_pos executable, decide_eq_false executable, Bool.false_and]
      rfl
  · rw [if_neg fits, if_pos fits]
    rfl

theorem loadLines_newline
    (system : System)
    (passes : Nat)
    (content : List Char)
    (syms : Syms) :
    loadLines system passes ('\n' :: content) syms = loadLines system passes content syms := by
  cases passes with
  | zero => rfl
  | succ passes =>
      unfold loadLines
      rw [scanLine_newline]

/-- With a pass more than there are lines, the loop adds the mappings of all
lines in order. -/
theorem loadLines_of_isMapsFile
    {system : System}
    {content : List Char}
    {lines : List MapsLine}
    (file : IsMapsFile content lines)
    {passes : Nat}
    (enough : lines.length < passes)
    (syms : Syms) :
    loadLines system passes content syms = lines.foldlM (addLine system) syms := by
  induction file generalizing passes syms with
  | nil =>
      obtain ⟨passes, rfl⟩ := Nat.exists_eq_add_one_of_ne_zero (Nat.ne_of_gt enough)
      rfl
  | last line =>
      rw [List.length_singleton] at enough
      obtain ⟨passes, rfl⟩ : ∃ others, passes = others + 1 + 1 := ⟨passes - 2, by omega⟩
      rw [@loadLines_write system line [] trivial, List.foldlM_cons]
      congr 1
  | @cons line content lines file inductionHypothesis =>
      rw [List.length_cons] at enough
      obtain ⟨passes, rfl⟩ := Nat.exists_eq_add_one_of_ne_zero (Nat.ne_of_gt
        (Nat.lt_of_le_of_lt (Nat.zero_le _) enough))
      rw [@loadLines_write system line ('\n' :: content) rfl, List.foldlM_cons]
      refine congrArg (Except.bind _) (funext fun syms => ?_)
      rw [loadLines_newline]
      exact inductionHypothesis (by omega) syms

/-- A file has no more lines than characters. -/
theorem IsMapsFile.length_le
    {content : List Char}
    {lines : List MapsLine}
    (file : IsMapsFile content lines) :
    lines.length ≤ content.length := by
  have grows : ∀ (line : MapsLine) (rest : List Char),
      rest.length + 1 ≤ (line.write rest).length := by
    intro line rest
    unfold MapsLine.write
    simp only [List.length_append, List.length_cons]
    omega
  induction file with
  | nil => exact Nat.le_refl 0
  | last line =>
      have longer := grows line []
      rw [List.length_singleton]
      omega
  | @cons line content lines file inductionHypothesis =>
      have longer := grows line ('\n' :: content)
      rw [List.length_cons] at longer ⊢
      omega

/-- A load of a well-formed file adds the mappings of its lines, if there is
memory for the list. -/
theorem loadFile_of_isMapsFile
    {system : System}
    {content : List Char}
    {lines : List MapsLine}
    (file : IsMapsFile content lines) :
    loadFile system (some content) =
      if system.callocFails then .error .failed else lines.foldlM (addLine system) [] := by
  rw [loadFile, loadLines_of_isMapsFile file (Nat.lt_succ_of_le file.length_le) []]

end Symbols
end EbpfHub
