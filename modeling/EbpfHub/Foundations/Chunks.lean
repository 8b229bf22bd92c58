import Mathlib.Data.List.Basic
import Mathlib.Data.List.Infix
import Mathlib.Data.List.TakeDrop

/-!
# Reading lines in chunks

A reader takes the elements of a line up to a limit, and goes on with the rest
of the line at the next call.  A test of every chunk that does not depend on the
end of the line holds of some chunk exactly when it holds of a window of a line
that begins at a multiple of the limit.
-/

namespace Foundations
namespace Chunks

section Reader

variable {α : Type*} [DecidableEq α]

/-! ## The reader -/

/-- Read elements up to the limit or through the end of the line, whichever
comes first: the chunk, and the rest of the input. -/
def read (ending : α) : Nat → List α → List α × List α
  | 0, input => ([], input)
  | _ + 1, [] => ([], [])
  | limit + 1, item :: rest =>
      if item = ending then ([item], rest)
      else
        match read ending limit rest with
        | (chunk, left) => (item :: chunk, left)

/-- Some chunk of the input satisfies the test.  A pass of the loop reads one
chunk, and finds none at the end of the input. -/
def anyChunk (ending : α) (test : List α → Bool) (limit : Nat) : Nat → List α → Bool
  | 0, _ => false
  | _ + 1, [] => false
  | passes + 1, input =>
      match read ending limit input with
      | (chunk, rest) => if test chunk then true else anyChunk ending test limit passes rest

variable {ending : α}

/-- A line as long as the limit, or longer, is read up to the limit. -/
theorem read_of_long
    {front : List α}
    (inLine : ending ∉ front)
    (rest : List α) :
    read ending front.length (front ++ rest) = (front, rest) := by
  induction front with
  | nil => rfl
  | cons item front inductionHypothesis =>
      obtain ⟨first, others⟩ := List.ne_and_not_mem_of_not_mem_cons inLine
      rw [List.length_cons, List.cons_append, read, if_neg (Ne.symm first),
        inductionHypothesis others]

/-- A shorter line is read through its end. -/
theorem read_of_short
    {line : List α}
    (inLine : ending ∉ line)
    {limit : Nat}
    (short : line.length < limit)
    (rest : List α) :
    read ending limit (line ++ ending :: rest) = (line ++ [ending], rest) := by
  induction line generalizing limit with
  | nil =>
      cases limit with
      | zero => exact absurd short (Nat.lt_irrefl 0)
      | succ limit => exact if_pos rfl
  | cons item line inductionHypothesis =>
      obtain ⟨first, others⟩ := List.ne_and_not_mem_of_not_mem_cons inLine
      cases limit with
      | zero => exact absurd short (Nat.not_lt_zero _)
      | succ limit =>
          have shorter : line.length < limit := Nat.lt_of_succ_lt_succ short
          rw [List.cons_append, read, if_neg (Ne.symm first), inductionHypothesis others shorter]
          rfl

/-- The last line, if it has no end, is read to the end of the input. -/
theorem read_of_last
    {line : List α}
    (inLine : ending ∉ line)
    {limit : Nat}
    (short : line.length < limit) :
    read ending limit line = (line, []) := by
  induction line generalizing limit with
  | nil =>
      cases limit with
      | zero => rfl
      | succ limit => rfl
  | cons item line inductionHypothesis =>
      obtain ⟨first, others⟩ := List.ne_and_not_mem_of_not_mem_cons inLine
      cases limit with
      | zero => exact absurd short (Nat.not_lt_zero _)
      | succ limit =>
          have shorter : line.length < limit := Nat.lt_of_succ_lt_succ short
          rw [read, if_neg (Ne.symm first), inductionHypothesis others shorter]

/-- A reader leaves no more than there was. -/
theorem length_read_le
    (ending : α)
    (limit : Nat)
    (input : List α) :
    (read ending limit input).2.length ≤ input.length := by
  induction input generalizing limit with
  | nil =>
      cases limit with
      | zero => exact Nat.le_refl _
      | succ limit => exact Nat.le_refl _
  | cons item rest inductionHypothesis =>
      cases limit with
      | zero => exact Nat.le_refl _
      | succ limit =>
          rw [read]
          split
          · exact Nat.le_succ _
          · exact Nat.le_succ_of_le (inductionHypothesis limit)

end Reader

section Windows

variable {α : Type*}

/-! ## Windows -/

/-- The test holds of a window of the line that begins at a multiple of the
limit. -/
def WindowOf (test : List α → Bool) (limit : Nat) (line : List α) : Prop :=
  ∃ k, test ((line.drop (k * limit)).take limit) = true

/-- What the loop needs of a test: that it does not hold of nothing, and that
the end of the line does not count. -/
structure IgnoresEnd (ending : α) (test : List α → Bool) : Prop where
  nil : test [] = false
  append : ∀ line, test (line ++ [ending]) = test line

variable {ending : α} {test : List α → Bool} {limit : Nat}

/-- Nothing has no window. -/
theorem not_windowOf_nil (ignores : IgnoresEnd ending test) : ¬WindowOf test limit [] := by
  rintro ⟨k, holds⟩
  rw [List.drop_nil, List.take_nil, ignores.nil] at holds
  cases holds

/-- The windows of a line begin with its first elements, up to the limit. -/
theorem windowOf_append
    {front rest : List α}
    (full : front.length = limit) :
    WindowOf test limit (front ++ rest) ↔ test front = true ∨ WindowOf test limit rest := by
  constructor
  · rintro ⟨k, holds⟩
    cases k with
    | zero =>
        rw [Nat.zero_mul, List.drop_zero, ← full, List.take_left] at holds
        exact .inl holds
    | succ k =>
        rw [Nat.succ_mul, Nat.add_comm, ← List.drop_drop, ← full, List.drop_left, full] at holds
        exact .inr ⟨k, holds⟩
  · rintro (holds | ⟨k, holds⟩)
    · refine ⟨0, ?_⟩
      rwa [Nat.zero_mul, List.drop_zero, ← full, List.take_left]
    · refine ⟨k + 1, ?_⟩
      rwa [Nat.succ_mul, Nat.add_comm, ← List.drop_drop, ← full, List.drop_left, full]

/-- A line within the limit is its only window. -/
theorem windowOf_of_short
    (ignores : IgnoresEnd ending test)
    {line : List α}
    (short : line.length ≤ limit) :
    WindowOf test limit line ↔ test line = true := by
  constructor
  · rintro ⟨k, holds⟩
    cases k with
    | zero => rwa [Nat.zero_mul, List.drop_zero, List.take_of_length_le short] at holds
    | succ k =>
        have past : line.length ≤ (k + 1) * limit := by
          rw [Nat.succ_mul]
          omega
        rw [List.drop_of_length_le past, List.take_nil, ignores.nil] at holds
        cases holds
  · intro holds
    refine ⟨0, ?_⟩
    rwa [Nat.zero_mul, List.drop_zero, List.take_of_length_le short]

/-- A pattern is part of a window exactly when it occurs in the line at a place
where no multiple of the limit splits it. -/
theorem exists_infix_window_iff
    {pattern line : List α}
    (nonempty : pattern ≠ []) :
    (∃ k, pattern <:+: (line.drop (k * limit)).take limit) ↔
      ∃ before after, line = before ++ pattern ++ after ∧
        before.length % limit + pattern.length ≤ limit := by
  constructor
  · rintro ⟨k, before, after, window⟩
    have size : before.length + pattern.length + after.length ≤ limit := by
      rw [← List.length_append, ← List.length_append, window]
      exact List.length_take_le _ _
    have occupied : 0 < pattern.length := List.length_pos_iff.mpr nonempty
    have inside : k * limit ≤ line.length := by
      by_contra past
      rw [List.drop_of_length_le (Nat.le_of_not_le past), List.take_nil] at window
      simp [nonempty] at window
    refine ⟨line.take (k * limit) ++ before, after ++ (line.drop (k * limit)).drop limit, ?_, ?_⟩
    · calc
        line = line.take (k * limit) ++ line.drop (k * limit) := (List.take_append_drop _ _).symm
        _ = line.take (k * limit) ++ ((line.drop (k * limit)).take limit ++
              (line.drop (k * limit)).drop limit) := by rw [List.take_append_drop limit]
        _ = line.take (k * limit) ++ before ++ pattern ++
              (after ++ (line.drop (k * limit)).drop limit) := by
            rw [← window]
            simp only [List.append_assoc]
    · have place : (line.take (k * limit) ++ before).length % limit = before.length := by
        rw [List.length_append, List.length_take_of_le inside, Nat.mul_add_mod_of_lt (by omega)]
      omega
  · rintro ⟨before, after, rfl, fits⟩
    have start : before.length / limit * limit ≤ before.length := Nat.div_mul_le_self _ _
    have place : (before.drop (before.length / limit * limit)).length = before.length % limit := by
      rw [List.length_drop]
      have division := Nat.div_add_mod' before.length limit
      omega
    have whole : (before.drop (before.length / limit * limit) ++ pattern).length ≤ limit := by
      rw [List.length_append, place]
      exact fits
    refine ⟨before.length / limit, ?_⟩
    rw [List.append_assoc, List.drop_append_of_le_length start, ← List.append_assoc,
      List.take_append, List.take_of_length_le whole]
    exact ⟨_, _, rfl⟩

end Windows

section Loop

variable {α : Type*} [DecidableEq α]

/-! ## The loop -/

/-- A line of the input, in which the lines are separated by their ends, has a
window that satisfies the test. -/
def Found (ending : α) (test : List α → Bool) (limit : Nat) (input : List α) : Prop :=
  ∃ line ∈ input.splitOn ending, WindowOf test limit line

/-- A line has no elements that the input does not have. -/
theorem subset_of_mem_splitOn
    {ending : α}
    {input line : List α}
    (member : line ∈ input.splitOn ending) :
    line ⊆ input := by
  induction input generalizing line with
  | nil =>
      rw [List.splitOn_nil, List.mem_singleton] at member
      rw [member]
      exact List.Subset.refl []
  | cons item input inductionHypothesis =>
      rw [List.splitOn_cons_eq_if_modifyHead] at member
      split at member
      · rcases List.mem_cons.mp member with rfl | inRest
        · exact List.nil_subset _
        · exact List.subset_cons_of_subset item (inductionHypothesis inRest)
      · cases lines : input.splitOn ending with
        | nil => exact absurd lines (List.splitOn_ne_nil ending input)
        | cons first others =>
            rw [lines] at member inductionHypothesis
            rcases List.mem_cons.mp member with rfl | inOthers
            · exact List.cons_subset_cons item (inductionHypothesis List.mem_cons_self)
            · exact List.subset_cons_of_subset item
                (inductionHypothesis (List.mem_cons_of_mem first inOthers))

/-- The first line of an input, which its end follows unless it is the last. -/
theorem exists_firstLine (ending : α) (input : List α) :
    ∃ line, ending ∉ line ∧ (input = line ∨ ∃ rest, input = line ++ ending :: rest) := by
  induction input with
  | nil => exact ⟨[], List.not_mem_nil, .inl rfl⟩
  | cons item input inductionHypothesis =>
      by_cases isEnd : item = ending
      · subst isEnd
        exact ⟨[], List.not_mem_nil, .inr ⟨input, rfl⟩⟩
      · obtain ⟨line, inLine, shape⟩ := inductionHypothesis
        refine ⟨item :: line, List.not_mem_cons_of_ne_of_not_mem (Ne.symm isEnd) inLine, ?_⟩
        rcases shape with rfl | ⟨rest, rfl⟩
        · exact .inl rfl
        · exact .inr ⟨rest, rfl⟩

variable {ending : α} {test : List α → Bool} {limit : Nat}

theorem found_of_last
    {line : List α}
    (inLine : ending ∉ line) :
    Found ending test limit line ↔ WindowOf test limit line := by
  unfold Found
  rw [List.splitOn_eq_singleton inLine]
  simp

/-- No line of an empty input has a window. -/
theorem not_found_nil (ignores : IgnoresEnd ending test) : ¬Found ending test limit [] := by
  rw [found_of_last List.not_mem_nil]
  exact not_windowOf_nil ignores

theorem found_append_ending
    {line : List α}
    (inLine : ending ∉ line)
    (rest : List α) :
    Found ending test limit (line ++ ending :: rest) ↔
      WindowOf test limit line ∨ Found ending test limit rest := by
  unfold Found
  rw [List.splitOn_append_cons_self_of_not_mem inLine]
  simp

/-- A pass of the loop takes the first window of the first line. -/
theorem found_iff_read
    (ignores : IgnoresEnd ending test)
    (limit : Nat)
    (input : List α) :
    Found ending test limit input ↔
      test (read ending limit input).1 = true ∨
        Found ending test limit (read ending limit input).2 := by
  obtain ⟨line, inLine, shape⟩ := exists_firstLine ending input
  rcases Nat.lt_or_ge line.length limit with short | long
  · have only := windowOf_of_short ignores short.le
    rcases shape with rfl | ⟨rest, rfl⟩
    · rw [read_of_last inLine short, found_of_last inLine, only]
      exact (or_iff_left (not_found_nil ignores)).symm
    · rw [read_of_short inLine short, found_append_ending inLine, only]
      dsimp only
      rw [ignores.append]
  · -- the chunk is the first window, and the next pass finds the rest of the line as a line
    have split : line.take limit ++ line.drop limit = line := List.take_append_drop limit line
    have full : (line.take limit).length = limit := List.length_take_of_le long
    have inFront : ending ∉ line.take limit := fun member => inLine (List.mem_of_mem_take member)
    have inBack : ending ∉ line.drop limit := fun member => inLine (List.mem_of_mem_drop member)
    have windows := @windowOf_append _ test limit _ (line.drop limit) full
    rw [split] at windows
    have chunk := fun rest => read_of_long inFront (line.drop limit ++ rest)
    rw [full] at chunk
    rcases shape with rfl | ⟨rest, rfl⟩
    · have whole := chunk []
      rw [List.append_nil, split] at whole
      rw [whole, found_of_last inLine, found_of_last inBack, windows]
    · have whole := chunk (ending :: rest)
      rw [← List.append_assoc, split] at whole
      rw [whole, found_append_ending inLine, found_append_ending inBack, windows, or_assoc]

/-- The loop with enough passes finds a chunk that satisfies the test exactly
when a line has such a window. -/
theorem anyChunk_iff
    (ignores : IgnoresEnd ending test)
    (positive : 0 < limit)
    {passes : Nat}
    {input : List α}
    (enough : input.length < passes) :
    anyChunk ending test limit passes input = true ↔ Found ending test limit input := by
  induction passes generalizing input with
  | zero => exact absurd enough (Nat.not_lt_zero _)
  | succ passes inductionHypothesis =>
      cases input with
      | nil =>
          refine iff_of_false (fun found => ?_) (not_found_nil ignores)
          rw [anyChunk] at found
          cases found
      | cons item rest =>
          obtain ⟨limit, rfl⟩ := Nat.exists_eq_succ_of_ne_zero positive.ne'
          have shorter : (read ending (limit + 1) (item :: rest)).2.length < passes := by
            have atMost : (read ending (limit + 1) (item :: rest)).2.length ≤ rest.length := by
              rw [read]
              split
              · exact Nat.le_refl _
              · exact length_read_le ending limit rest
            have within : rest.length < passes := Nat.lt_of_succ_lt_succ enough
            omega
          rw [found_iff_read ignores (limit + 1), ← inductionHypothesis shorter, anyChunk]
          · rcases read ending (limit + 1) (item :: rest) with ⟨chunk, left⟩
            dsimp only
            split
            · next holds => exact iff_of_true rfl (.inl holds)
            · next fails => exact (or_iff_right fails).symm
          · exact List.cons_ne_nil _ _

end Loop

end Chunks
end Foundations
