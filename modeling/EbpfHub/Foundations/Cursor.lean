import Mathlib.Data.List.Basic
import Mathlib.Data.List.Nodup
import Mathlib.Order.Defs.Unbundled

/-!
# Walking through a changing set of keys with a cursor

A cursor walk asks for the key after its cursor until there is none.  The set
of keys may change between two questions.  A key that leaves the set while it is
the cursor sends the walk back to the first key.
-/

namespace Foundations

variable {κ : Type u} [DecidableEq κ]

/-- The key after the given one, or the first key when the given one is
absent. -/
def nextKey (keys : List κ) (key : κ) : Option κ :=
  if key ∈ keys then keys[keys.idxOf key + 1]? else keys.head?

/-- The keys that a walk visits, when the successive questions find the given
lists of keys. -/
def visits : κ → List (List κ) → List κ
  | _, [] => []
  | cursor, keys :: later =>
      match nextKey keys cursor with
      | none => []
      | some key => key :: visits key later

/-- The walk comes to an end within the given questions. -/
def Finishes : κ → List (List κ) → Prop
  | _, [] => False
  | cursor, keys :: later =>
      match nextKey keys cursor with
      | none => True
      | some key => Finishes key later

/-- After the walk has visited the key (or if it has done so before), some
question finds the cursor absent. -/
def Rewinds (visited : κ) : Bool → κ → List (List κ) → Prop
  | _, _, [] => False
  | seen, cursor, keys :: later =>
      (seen = true ∧ cursor ∉ keys) ∨
        match nextKey keys cursor with
        | none => False
        | some key => Rewinds visited (seen || decide (key = visited)) key later

instance instDecidableRewinds (visited : κ) :
    (seen : Bool) → (cursor : κ) → (questions : List (List κ)) →
      Decidable (Rewinds visited seen cursor questions)
  | _, _, [] => .isFalse not_false
  | seen, cursor, keys :: later =>
      have _rest : Decidable
          (match nextKey keys cursor with
            | none => False
            | some key => Rewinds visited (seen || decide (key = visited)) key later) :=
        match nextKey keys cursor with
        | none => .isFalse not_false
        | some key =>
            instDecidableRewinds visited (seen || decide (key = visited)) key later
      inferInstanceAs (Decidable (_ ∨ _))

/-! ## A set of keys that does not change -/

/-- After a key of a list without repetitions comes the next one. -/
theorem nextKey_of_mem
    {before after : List κ}
    {key : κ}
    (distinct : (before ++ key :: after).Nodup) :
    nextKey (before ++ key :: after) key = after.head? := by
  have absent : key ∉ before := by
    intro member
    exact (List.nodup_append.mp distinct).2.2 key member key List.mem_cons_self rfl
  have position : (before ++ key :: after).idxOf key = before.length := by
    rw [List.idxOf_append_of_notMem absent, List.idxOf_cons_self, Nat.add_zero]
  rw [nextKey, if_pos (by simp), position, List.head?_eq_getElem?,
    List.getElem?_append_right (by omega)]
  simp

/-- With enough questions the walk through the rest of a list visits it. -/
theorem visits_of_unchanged
    {keys : List κ}
    (distinct : keys.Nodup)
    (after before : List κ)
    (cursor : κ)
    (split : keys = before ++ cursor :: after)
    (count : Nat)
    (enough : after.length < count) :
    visits cursor (List.replicate count keys) = after ∧
      Finishes cursor (List.replicate count keys) := by
  induction after generalizing before cursor count with
  | nil =>
      obtain ⟨count, rfl⟩ := Nat.exists_eq_succ_of_ne_zero (Nat.ne_of_gt enough)
      have next : nextKey keys cursor = none := by
        rw [split] at distinct ⊢
        exact nextKey_of_mem distinct
      simp [List.replicate_succ, visits, Finishes, next]
  | cons key after inductionHypothesis =>
      obtain ⟨count, rfl⟩ := Nat.exists_eq_succ_of_ne_zero (show count ≠ 0 by omega)
      have next : nextKey keys cursor = some key := by
        rw [split] at distinct ⊢
        exact nextKey_of_mem distinct
      have rest := inductionHypothesis (before ++ [cursor]) key (by simp [split]) count
        (by simp only [List.length_cons] at enough; omega)
      simpa [List.replicate_succ, visits, Finishes, next] using rest

/-- With enough questions a walk from an absent cursor visits every key once,
in their order. -/
theorem visits_of_absent
    {keys : List κ}
    {cursor : κ}
    (absent : cursor ∉ keys)
    (distinct : keys.Nodup)
    (count : Nat)
    (enough : keys.length < count) :
    visits cursor (List.replicate count keys) = keys ∧
      Finishes cursor (List.replicate count keys) := by
  obtain ⟨count, rfl⟩ := Nat.exists_eq_succ_of_ne_zero (show count ≠ 0 by omega)
  cases keys with
  | nil => simp [List.replicate_succ, visits, Finishes, nextKey]
  | cons key after =>
      have next : nextKey (key :: after) cursor = some key := by
        rw [nextKey, if_neg absent]
        rfl
      have rest := visits_of_unchanged distinct after [] key rfl count
        (by simp only [List.length_cons] at enough; omega)
      simpa [List.replicate_succ, visits, Finishes, next] using rest

/-! ## A set of keys that changes -/

section Changing

variable {before : κ → κ → Prop} [IsStrictOrder κ before]

omit [DecidableEq κ] in
theorem nodup_of_sorted
    {keys : List κ}
    (sorted : keys.Pairwise before) :
    keys.Nodup := by
  apply sorted.imp
  rintro first second precedes rfl
  exact irrefl first precedes

omit [DecidableEq κ] [IsStrictOrder κ before] in
/-- The first of a sorted list of keys is the given one or comes before it. -/
theorem head_of_sorted
    {first : κ}
    {rest : List κ}
    (sorted : (first :: rest).Pairwise before)
    {key : κ}
    (present : key ∈ first :: rest) :
    first = key ∨ before first key := by
  rcases List.mem_cons.mp present with rfl | later
  · exact .inl rfl
  · exact .inr ((List.pairwise_cons.mp sorted).1 key later)

/-- While a key is ahead of the cursor, the next key is that one or one before
it. -/
theorem nextKey_of_ahead
    {keys : List κ}
    (sorted : keys.Pairwise before)
    {cursor key : κ}
    (present : key ∈ keys)
    (ahead : cursor ∈ keys → before cursor key) :
    ∃ next, nextKey keys cursor = some next ∧ (next = key ∨ before next key) := by
  by_cases inside : cursor ∈ keys
  · have precedes := ahead inside
    obtain ⟨front, back, rfl⟩ := List.append_of_mem inside
    rw [nextKey_of_mem (nodup_of_sorted sorted)]
    obtain ⟨_, sortedBack, across⟩ := List.pairwise_append.mp sorted
    have later : key ∈ back := by
      rcases List.mem_append.mp present with early | late
      · exact absurd (IsTrans.trans _ _ _ precedes (across key early cursor List.mem_cons_self))
          (irrefl cursor)
      · rcases List.mem_cons.mp late with rfl | later
        · exact absurd precedes (irrefl key)
        · exact later
    cases back with
    | nil => cases later
    | cons next rest =>
        exact ⟨next, rfl, head_of_sorted (List.pairwise_cons.mp sortedBack).2 later⟩
  · rw [nextKey, if_neg inside]
    cases keys with
    | nil => cases present
    | cons next rest => exact ⟨next, rfl, head_of_sorted sorted present⟩

/-- The next key after a present cursor is behind it. -/
theorem nextKey_of_present
    {keys : List κ}
    (sorted : keys.Pairwise before)
    {cursor next : κ}
    (present : cursor ∈ keys)
    (found : nextKey keys cursor = some next) :
    before cursor next := by
  obtain ⟨front, back, rfl⟩ := List.append_of_mem present
  rw [nextKey_of_mem (nodup_of_sorted sorted)] at found
  obtain ⟨_, sortedBack, _⟩ := List.pairwise_append.mp sorted
  apply (List.pairwise_cons.mp sortedBack).1
  exact List.mem_of_head? found

/-- A walk that comes to an end with a key ahead of its cursor visits that key. -/
theorem mem_visits_of_ahead
    {questions : List (List κ)}
    {cursor key : κ}
    (sorted : ∀ keys ∈ questions, keys.Pairwise before)
    (present : ∀ keys ∈ questions, key ∈ keys)
    (ahead : before cursor key ∨ ∀ keys ∈ questions, cursor ∉ keys)
    (finishes : Finishes cursor questions) :
    key ∈ visits cursor questions := by
  induction questions generalizing cursor with
  | nil => exact absurd finishes not_false
  | cons keys later inductionHypothesis =>
      obtain ⟨sortedHere, sortedLater⟩ := List.forall_mem_cons.mp sorted
      obtain ⟨presentHere, presentLater⟩ := List.forall_mem_cons.mp present
      obtain ⟨next, found, reached⟩ := nextKey_of_ahead sortedHere presentHere
        fun inside => ahead.resolve_right fun outside => outside keys List.mem_cons_self inside
      simp only [visits, Finishes, found] at finishes ⊢
      rcases reached with rfl | still
      · exact List.mem_cons_self
      · exact List.mem_cons_of_mem _
          (inductionHypothesis sortedLater presentLater (.inl still) finishes)

/-- After its visit a key is visited again exactly if the walk rewinds. -/
theorem mem_visits_iff_rewinds
    {questions : List (List κ)}
    {cursor key : κ}
    (sorted : ∀ keys ∈ questions, keys.Pairwise before)
    (present : ∀ keys ∈ questions, key ∈ keys)
    (behind : cursor = key ∨ before key cursor)
    (finishes : Finishes cursor questions) :
    key ∈ visits cursor questions ↔ Rewinds key true cursor questions := by
  induction questions generalizing cursor with
  | nil => exact absurd finishes not_false
  | cons keys later inductionHypothesis =>
      obtain ⟨sortedHere, sortedLater⟩ := List.forall_mem_cons.mp sorted
      obtain ⟨presentHere, presentLater⟩ := List.forall_mem_cons.mp present
      by_cases inside : cursor ∈ keys
      · cases found : nextKey keys cursor with
        | none => simp [visits, Rewinds, found, inside]
        | some next =>
            have beyond : before key next := by
              have step := nextKey_of_present sortedHere inside found
              rcases behind with rfl | behind
              · exact step
              · exact IsTrans.trans _ _ _ behind step
            have different : key ≠ next := by
              rintro rfl
              exact irrefl key beyond
            simp only [Finishes, found] at finishes
            simp only [visits, Rewinds, found, inside, List.mem_cons, different, false_or,
              not_true_eq_false, and_false, Bool.true_or]
            exact inductionHypothesis sortedLater presentLater (.inr beyond) finishes
      · have again : key ∈ visits cursor (keys :: later) := by
          obtain ⟨next, found, reached⟩ := nextKey_of_ahead sortedHere presentHere
            fun present => absurd present inside
          simp only [Finishes, found] at finishes
          simp only [visits, found]
          rcases reached with rfl | still
          · exact List.mem_cons_self
          · exact List.mem_cons_of_mem _
              (mem_visits_of_ahead sortedLater presentLater (.inl still) finishes)
        simp [again, Rewinds, inside]

/-- A key that stays in the set is visited exactly once by a walk that comes to
an end if and only if the walk does not rewind after visiting it. -/
theorem count_visits_eq_one_iff
    {questions : List (List κ)}
    {cursor key : κ}
    (sorted : ∀ keys ∈ questions, keys.Pairwise before)
    (present : ∀ keys ∈ questions, key ∈ keys)
    (ahead : before cursor key ∨ ∀ keys ∈ questions, cursor ∉ keys)
    (finishes : Finishes cursor questions) :
    (visits cursor questions).count key = 1 ↔ ¬Rewinds key false cursor questions := by
  induction questions generalizing cursor with
  | nil => exact absurd finishes not_false
  | cons keys later inductionHypothesis =>
      obtain ⟨sortedHere, sortedLater⟩ := List.forall_mem_cons.mp sorted
      obtain ⟨presentHere, presentLater⟩ := List.forall_mem_cons.mp present
      obtain ⟨next, found, reached⟩ := nextKey_of_ahead sortedHere presentHere
        fun inside => ahead.resolve_right fun outside => outside keys List.mem_cons_self inside
      simp only [Finishes, found] at finishes
      simp only [visits, Rewinds, found, Bool.false_eq_true, false_and, false_or, Bool.false_or]
      rcases reached with rfl | still
      · rw [List.count_cons_self, decide_eq_true rfl,
          ← mem_visits_iff_rewinds sortedLater presentLater (.inl rfl) finishes,
          Nat.add_eq_right, List.count_eq_zero]
      · have different : next ≠ key := by
          rintro rfl
          exact irrefl next still
        rw [List.count_cons_of_ne different, decide_eq_false different]
        exact inductionHypothesis sortedLater presentLater (.inl still) finishes

end Changing

end Foundations
