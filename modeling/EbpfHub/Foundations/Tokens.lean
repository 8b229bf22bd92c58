import Mathlib.Data.List.Basic
import Mathlib.Data.List.TakeWhile

/-!
# Tokens between separators

A reader that skips separators and then takes what comes before the next one
yields the nonempty pieces of its input, one at each call.
-/

namespace Foundations
namespace Tokens

variable {α : Type*}

/-- The nonempty pieces between the separators. -/
def tokens (separates : α → Bool) (input : List α) : List (List α) :=
  (input.splitOnP separates).filter fun piece => !piece.isEmpty

/-- `strtok`: the next token and the rest of the input behind its end. -/
def strtok (separates : α → Bool) (input : List α) : Option (List α × List α) :=
  match input.dropWhile separates with
  | [] => none
  | item :: rest =>
      some ((item :: rest).takeWhile (!separates ·),
        ((item :: rest).dropWhile (!separates ·)).drop 1)

variable {separates : α → Bool}

@[simp] theorem tokens_nil : tokens separates [] = [] := rfl

/-- A separator at the beginning is skipped. -/
theorem tokens_cons_of_separates
    {item : α}
    (skipped : separates item = true)
    (rest : List α) :
    tokens separates (item :: rest) = tokens separates rest := by
  rw [tokens, List.splitOnP_cons_eq_if_modifyHead, if_pos skipped]
  rfl

/-- Separators at the beginning are skipped. -/
theorem tokens_dropWhile (input : List α) :
    tokens separates (input.dropWhile separates) = tokens separates input := by
  induction input with
  | nil => rfl
  | cons item input inductionHypothesis =>
      rw [List.dropWhile_cons]
      split
      · next skipped => rw [inductionHypothesis, tokens_cons_of_separates skipped]
      · rfl

/-- A token that ends the input. -/
theorem tokens_of_last
    {token : List α}
    (nonempty : token ≠ [])
    (inside : ∀ item ∈ token, separates item = false) :
    tokens separates token = [token] := by
  rw [tokens, List.splitOnP_eq_singleton inside]
  simp [nonempty]

/-- A token before a separator. -/
theorem tokens_append_cons
    {token : List α}
    (nonempty : token ≠ [])
    (inside : ∀ item ∈ token, separates item = false)
    {item : α}
    (ends : separates item = true)
    (rest : List α) :
    tokens separates (token ++ item :: rest) = token :: tokens separates rest := by
  rw [tokens, List.splitOnP_append_cons_of_forall_mem inside item ends, List.filter_cons_of_pos]
  · rfl
  · simp [nonempty]

/-- The reader yields the first token and leaves the others, or there is none. -/
theorem strtok_spec (input : List α) :
    (strtok separates input = none ∧ tokens separates input = []) ∨
      ∃ token rest, strtok separates input = some (token, rest) ∧
        tokens separates input = token :: tokens separates rest ∧
        rest.length < input.length := by
  rw [← tokens_dropWhile input]
  have shorter : (input.dropWhile separates).length ≤ input.length :=
    (List.dropWhile_sublist _).length_le
  unfold strtok
  cases begins : input.dropWhile separates with
  | nil => exact .inl ⟨rfl, rfl⟩
  | cons item others =>
      right
      have first : separates item = false := by
        have stops := List.head?_dropWhile_not separates input
        rw [begins] at stops
        exact stops
      have nonempty : (item :: others).takeWhile (!separates ·) ≠ [] := by
        rw [List.takeWhile_cons_of_pos (by rw [first]; rfl)]
        exact List.cons_ne_nil _ _
      have inside : ∀ other ∈ (item :: others).takeWhile (!separates ·),
          separates other = false := by
        intro other member
        simpa using List.mem_takeWhile_imp member
      have split : (item :: others).takeWhile (!separates ·) ++
          (item :: others).dropWhile (!separates ·) = item :: others :=
        List.takeWhile_append_dropWhile
      have length := congrArg List.length split
      rw [List.length_append] at length
      have inhabited := List.length_pos_of_ne_nil nonempty
      rw [begins] at shorter
      refine ⟨_, _, rfl, ?_, ?_⟩
      · cases after : (item :: others).dropWhile (!separates ·) with
        | nil =>
            rw [after, List.append_nil] at split
            rw [split] at inside ⊢
            exact tokens_of_last (List.cons_ne_nil item others) inside
        | cons ending more =>
            have ends := List.head?_dropWhile_not (!separates ·) (item :: others)
            rw [after] at ends split
            have separator : separates ending = true := by
              simpa using ends
            have cut := tokens_append_cons nonempty inside separator more
            rw [split] at cut
            exact cut
      · rw [List.length_drop]
        omega

theorem strtok_eq_none
    {input : List α}
    (nothing : tokens separates input = []) :
    strtok separates input = none := by
  rcases strtok_spec input with ⟨takes, -⟩ | ⟨token, rest, -, next, -⟩
  · exact takes
  · rw [nothing] at next
    cases next

theorem exists_strtok_eq_some
    {input token : List α}
    {others : List (List α)}
    (next : tokens separates input = token :: others) :
    ∃ rest, strtok separates input = some (token, rest) := by
  rcases strtok_spec input with ⟨-, nothing⟩ | ⟨first, rest, takes, cut, -⟩
  · rw [next] at nothing
    cases nothing
  · rw [next] at cut
    cases cut
    exact ⟨rest, takes⟩

/-- Words that are joined by a separator are the tokens. -/
theorem tokens_intercalate
    {words : List (List α)}
    (nonempty : ∀ word ∈ words, word ≠ [])
    (inside : ∀ word ∈ words, ∀ item ∈ word, separates item = false)
    {item : α}
    (joins : separates item = true) :
    tokens separates ([item].intercalate words) = words := by
  induction words with
  | nil => rfl
  | cons word words inductionHypothesis =>
      obtain ⟨first, others⟩ := List.forall_mem_cons.mp nonempty
      obtain ⟨firstInside, othersInside⟩ := List.forall_mem_cons.mp inside
      cases words with
      | nil => rw [List.intercalate_singleton, tokens_of_last first firstInside]
      | cons next words =>
          rw [List.intercalate_cons_cons, List.append_assoc, List.singleton_append,
            tokens_append_cons first firstInside joins, inductionHypothesis others othersInside]

end Tokens
end Foundations
