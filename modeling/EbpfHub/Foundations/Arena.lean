import Mathlib.Data.List.TakeWhile

/-!
# Strings in an arena

Strings that are appended to one array, each with a terminator, and found again
by the offset at which they begin.  What is appended later changes none of them.
-/

namespace Foundations
namespace Arena

/-- Append a string and its terminator. -/
def push (terminator : α) (arena name : List α) : List α := arena ++ (name ++ [terminator])

@[simp] theorem length_push (terminator : α) (arena name : List α) :
    (push terminator arena name).length = arena.length + (name.length + 1) := by
  simp [push]

variable [DecidableEq α]

/-- The string that begins at an offset, `none` when no terminator follows. -/
def read (terminator : α) (arena : List α) (offset : Nat) : Option (List α) :=
  if terminator ∈ arena.drop offset then
    some ((arena.drop offset).takeWhile (· ≠ terminator))
  else none

/-- What is found in front of a terminator. -/
theorem read_of_drop
    {terminator : α}
    {arena : List α}
    {offset : Nat}
    {name rest : List α}
    (clean : terminator ∉ name)
    (content : arena.drop offset = name ++ terminator :: rest) :
    read terminator arena offset = some name := by
  have all : ∀ entry ∈ name, decide (entry ≠ terminator) = true := by
    intro entry member
    refine decide_eq_true fun same => clean ?_
    rwa [← same]
  unfold read
  rw [content, if_pos (by simp), List.takeWhile_append_of_pos all,
    List.takeWhile_cons_of_neg (by simp), List.append_nil]

/-- Where a string is found, a terminator follows it. -/
theorem exists_drop_of_read
    {terminator : α}
    {arena : List α}
    {offset : Nat}
    {name : List α}
    (found : read terminator arena offset = some name) :
    terminator ∉ name ∧ ∃ rest, arena.drop offset = name ++ terminator :: rest := by
  unfold read at found
  split at found
  · next ends =>
    obtain ⟨front, rest, content, clean⟩ := List.eq_append_cons_of_mem ends
    have again : read terminator arena offset = some front := read_of_drop clean content
    unfold read at again
    rw [if_pos ends, found] at again
    obtain rfl := Option.some.inj again
    exact ⟨clean, rest, content⟩
  · cases found

/-- The string that was appended last begins where the arena ended. -/
theorem read_push
    {terminator : α}
    (arena : List α)
    {name : List α}
    (clean : terminator ∉ name) :
    read terminator (push terminator arena name) arena.length = some name := by
  have content : (push terminator arena name).drop arena.length = name ++ terminator :: [] :=
    List.drop_left
  exact read_of_drop clean content

/-- A string that is found begins inside the arena. -/
theorem offset_lt_of_read
    {terminator : α}
    {arena : List α}
    {offset : Nat}
    {name : List α}
    (found : read terminator arena offset = some name) :
    offset < arena.length := by
  obtain ⟨-, rest, content⟩ := exists_drop_of_read found
  have lengths := congrArg List.length content
  rw [List.length_drop, List.length_append, List.length_cons] at lengths
  omega

/-- A string keeps its content and its offset when the arena grows. -/
theorem read_append
    {terminator : α}
    {arena : List α}
    {offset : Nat}
    {name : List α}
    (found : read terminator arena offset = some name)
    (more : List α) :
    read terminator (arena ++ more) offset = some name := by
  have inside := offset_lt_of_read found
  obtain ⟨clean, rest, content⟩ := exists_drop_of_read found
  have grown : (arena ++ more).drop offset = name ++ terminator :: (rest ++ more) := by
    rw [List.drop_append_of_le_length (Nat.le_of_lt inside), content]
    simp
  exact read_of_drop clean grown

end Arena
end Foundations
