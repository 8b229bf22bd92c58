import EbpfHub.Foundations.Chunks
import Mathlib.Data.List.TakeWhile

/-!
# The search for a library in the maps of a target

`memleak.c` reads the maps file of the target with a buffer of 512 bytes and
looks for the name of a library in what each call of `fgets` puts there.  A name
that a multiple of 511 characters splits is in no such piece.
-/

namespace EbpfHub
namespace Memleak

open Foundations

/-! ## The search -/

/-- `strstr`, in a haystack that ends at its first zero. -/
def strstr (haystack needle : List Char) : Bool :=
  (haystack.takeWhile (· ≠ '\x00')).tails.any needle.isPrefixOf

/-- The characters that `fgets` reads at most into `line`: its size, less the
final zero. -/
def lineChars : Nat := 511

/-- `is_library_loaded`, for the content of the maps file, `none` when it cannot
be opened.  The loop makes one pass more than there are characters. -/
def isLibraryLoaded (content : Option (List Char)) (libName : List Char) : Bool :=
  match content with
  | none => false
  | some content =>
      Chunks.anyChunk '\n' (strstr · libName) lineChars (content.length + 1) content

/-! ## What it finds -/

theorem strstr_iff {haystack needle : List Char} :
    strstr haystack needle = true ↔ needle <:+: haystack.takeWhile (· ≠ '\x00') := by
  unfold strstr
  rw [List.any_eq_true, List.infix_iff_prefix_suffix]
  simp only [List.mem_tails, List.isPrefixOf_iff_prefix, and_comm]

/-- In a text without zeros `strstr` looks through all of it. -/
theorem strstr_iff_infix
    {haystack needle : List Char}
    (text : '\x00' ∉ haystack) :
    strstr haystack needle = true ↔ needle <:+: haystack := by
  have whole : haystack.takeWhile (· ≠ '\x00') = haystack := by
    rw [List.takeWhile_eq_self_iff]
    intro c member
    rw [decide_eq_true_iff]
    rintro rfl
    exact text member
  rw [strstr_iff, whole]

/-- The end of a line adds no occurrence of a name without a newline. -/
theorem infix_append_newline_iff
    {libName line : List Char}
    (inLine : '\n' ∉ libName) :
    libName <:+: line ++ ['\n'] ↔ libName <:+: line := by
  rw [List.infix_concat_iff]
  refine or_iff_right_of_imp fun atEnd => ?_
  rcases List.suffix_concat_iff.mp atEnd with rfl | ⟨front, rfl, -⟩
  · exact List.nil_infix
  · exact absurd (by simp) inLine

/-- The search for a name without a newline does not depend on the ends of
lines. -/
theorem strstr_ignoresEnd
    {libName : List Char}
    (nonempty : libName ≠ [])
    (inLine : '\n' ∉ libName) :
    Chunks.IgnoresEnd '\n' (strstr · libName) := by
  constructor
  · refine Bool.eq_false_iff.mpr fun found => nonempty ?_
    exact List.infix_nil.mp (strstr_iff.mp found)
  · intro line
    rw [Bool.eq_iff_iff, strstr_iff, strstr_iff, List.takeWhile_append]
    split
    · next whole =>
      rw [(List.takeWhile_prefix _).eq_of_length whole]
      exact infix_append_newline_iff inLine
    · rfl

/-! ## Whether it finds the library -/

/-- Some line of the text contains the name. -/
def Mentions (content libName : List Char) : Prop :=
  ∃ line ∈ content.splitOn '\n', libName <:+: line

/-- Some line of the text contains the name at a place where no multiple of 511
characters splits it. -/
def MentionsWhole (content libName : List Char) : Prop :=
  ∃ line ∈ content.splitOn '\n', ∃ before after, line = before ++ libName ++ after ∧
    before.length % lineChars + libName.length ≤ lineChars

section Search

variable {content libName : List Char}

/-- The search succeeds exactly when `strstr` finds the name in a window of a
line. -/
theorem isLibraryLoaded_iff_found
    (nonempty : libName ≠ [])
    (inLine : '\n' ∉ libName) :
    isLibraryLoaded (some content) libName = true ↔
      Chunks.Found '\n' (strstr · libName) lineChars content :=
  Chunks.anyChunk_iff (strstr_ignoresEnd nonempty inLine) (by decide) (Nat.lt_succ_self _)

/-- What is found is there. -/
theorem mentions_of_isLibraryLoaded
    (nonempty : libName ≠ [])
    (inLine : '\n' ∉ libName)
    (loaded : isLibraryLoaded (some content) libName = true) :
    Mentions content libName := by
  obtain ⟨line, member, k, found⟩ := (isLibraryLoaded_iff_found nonempty inLine).mp loaded
  refine ⟨line, member, ?_⟩
  calc
    libName <:+: ((line.drop (k * lineChars)).take lineChars).takeWhile (· ≠ '\x00') :=
      strstr_iff.mp found
    _ <:+: (line.drop (k * lineChars)).take lineChars := (List.takeWhile_prefix _).isInfix
    _ <:+: line.drop (k * lineChars) := (List.take_prefix _ _).isInfix
    _ <:+: line := (List.drop_suffix _ _).isInfix

/-- In a text without zeros the search succeeds exactly when a line contains the
name where it is not split. -/
theorem isLibraryLoaded_iff_mentionsWhole
    (text : '\x00' ∉ content)
    (nonempty : libName ≠ [])
    (inLine : '\n' ∉ libName) :
    isLibraryLoaded (some content) libName = true ↔ MentionsWhole content libName := by
  rw [isLibraryLoaded_iff_found nonempty inLine]
  refine exists_congr fun line => and_congr_right fun member => ?_
  rw [← Chunks.exists_infix_window_iff nonempty]
  refine exists_congr fun k => strstr_iff_infix fun zero => text ?_
  exact Chunks.subset_of_mem_splitOn member
    (List.mem_of_mem_drop (List.mem_of_mem_take zero))

/-- The search finds the name exactly when a line contains it, if and only if
the name, in case it is there, occurs in some line where no multiple of 511
characters splits it. -/
theorem library_detected_iff
    (text : '\x00' ∉ content)
    (nonempty : libName ≠ [])
    (inLine : '\n' ∉ libName) :
    (isLibraryLoaded (some content) libName = true ↔ Mentions content libName) ↔
      (Mentions content libName → MentionsWhole content libName) := by
  rw [← isLibraryLoaded_iff_mentionsWhole text nonempty inLine]
  constructor
  · exact fun detected => detected.mpr
  · exact fun whole => ⟨mentions_of_isLibraryLoaded nonempty inLine, whole⟩

end Search

/-! ## A long path -/

/-- The first 505 characters of a line that maps a library in a directory with a
long path. -/
def longFront : List Char :=
  "1000-2000 r-xp 00000000 08:01 5 /".toList ++ List.replicate 235 'a' ++ ['/'] ++
    List.replicate 235 'a' ++ ['/']

/-- A line that maps `libstdc++.so.6` there. -/
def longLine : List Char := longFront ++ "libstdc++".toList ++ ".so.6".toList

/-- The name in a line of a short path is found. -/
theorem library_detected_iff_short :
    isLibraryLoaded (some "1000-2000 r-xp 0 8:1 5 /libstdc++.so.6\n".toList)
        "libstdc++".toList = true ↔
      Mentions "1000-2000 r-xp 0 8:1 5 /libstdc++.so.6\n".toList "libstdc++".toList := by
  refine (library_detected_iff (by simp) (by simp) (by simp)).mpr fun _ => ?_
  exact (isLibraryLoaded_iff_mentionsWhole (by simp) (by simp) (by simp)).mp
    (by decide +kernel)

theorem longLine_text : '\x00' ∉ longLine ∧ '\n' ∉ longLine := by
  decide +kernel

/-- The long line contains the name of the library behind its first 505
characters, and it is not found there. -/
theorem longLine_not_detected :
    '\x00' ∉ longLine ∧ "libstdc++".toList ≠ [] ∧ '\n' ∉ "libstdc++".toList ∧
      ¬(isLibraryLoaded (some longLine) "libstdc++".toList = true ↔
        Mentions longLine "libstdc++".toList) := by
  refine ⟨longLine_text.1, by simp, by simp, fun detected => ?_⟩
  have mentioned : Mentions longLine "libstdc++".toList := by
    refine ⟨longLine, ?_, longFront, ".so.6".toList, rfl⟩
    rw [List.splitOn_eq_singleton longLine_text.2, List.mem_singleton]
  have missed : isLibraryLoaded (some longLine) "libstdc++".toList = false := by
    decide +kernel
  rw [detected.mpr mentioned] at missed
  cases missed

end Memleak
end EbpfHub
