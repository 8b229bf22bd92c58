import Mathlib.Algebra.BigOperators.Group.List.Basic
import Mathlib.Algebra.Ring.Nat
import Mathlib.Data.Finset.Card
import Mathlib.Data.List.Induction
import Mathlib.Data.List.Nodup

/-!
# Tallies: one row for each label

A tally goes through a list of entries and keeps one row for each label it
meets: the first entry with a label starts its row, later ones are merged into
it.  The rows that come out are exactly the summaries of the groups of entries
with the same label.
-/

namespace Foundations

/-- What a filter keeps of a list with one more entry. -/
theorem filter_append_singleton
    (keeps : α → Prop)
    [DecidablePred keeps]
    (entries : List α)
    (entry : α) :
    (entries ++ [entry]).filter (fun entry => keeps entry) =
      if keeps entry then entries.filter (fun entry => keeps entry) ++ [entry]
      else entries.filter fun entry => keeps entry := by
  rw [List.filter_append]
  split
  · next kept => simp [kept]
  · next dropped => simp [dropped]

/-- How entries start rows and are merged into them. -/
structure Grouping (ι : Type u) (α : Type v) (β : Type w) where
  /-- The label of an entry. -/
  label : α → ι
  /-- The label of a row. -/
  rowLabel : β → ι
  /-- The row of a single entry. -/
  start : α → β
  /-- Merge an entry into a row. -/
  merge : β → α → β
  /-- An entry starts a row with its label. -/
  rowLabel_start : ∀ entry, rowLabel (start entry) = label entry
  /-- Merging does not change the label of a row. -/
  rowLabel_merge : ∀ row entry, rowLabel (merge row entry) = rowLabel row

namespace Grouping

variable {ι : Type u} {α : Type v} {β : Type w} [DecidableEq ι]

/-- Merge an entry into the first row with its label, or start a new row. -/
def add (grouping : Grouping ι α β) : List β → α → List β
  | [], entry => [grouping.start entry]
  | row :: rows, entry =>
      if grouping.rowLabel row = grouping.label entry then grouping.merge row entry :: rows
      else row :: grouping.add rows entry

/-- The rows of a list of entries. -/
def tally (grouping : Grouping ι α β) (entries : List α) : List β :=
  entries.foldl grouping.add []

/-- The entries with the given label. -/
def group (grouping : Grouping ι α β) (entries : List α) (label : ι) : List α :=
  entries.filter fun entry => grouping.label entry = label

omit [DecidableEq ι] in
/-- The row of a group, if it has an entry. -/
def summary (grouping : Grouping ι α β) : List α → Option β
  | [] => none
  | first :: rest => some (rest.foldl grouping.merge (grouping.start first))

variable (grouping : Grouping ι α β)

@[simp] theorem tally_nil : grouping.tally [] = [] := rfl

theorem tally_append_singleton (entries : List α) (entry : α) :
    grouping.tally (entries ++ [entry]) = grouping.add (grouping.tally entries) entry := by
  simp [tally]

/-- Adding an entry adds its label, unless there is a row with it. -/
theorem map_rowLabel_add (rows : List β) (entry : α) :
    (grouping.add rows entry).map grouping.rowLabel =
      if grouping.label entry ∈ rows.map grouping.rowLabel then rows.map grouping.rowLabel
      else rows.map grouping.rowLabel ++ [grouping.label entry] := by
  induction rows with
  | nil => simp [add, grouping.rowLabel_start]
  | cons row rows inductionHypothesis =>
      unfold add
      by_cases here : grouping.rowLabel row = grouping.label entry
      · simp [here, grouping.rowLabel_merge]
      · have elsewhere : grouping.label entry ≠ grouping.rowLabel row := Ne.symm here
        rw [if_neg here, List.map_cons, inductionHypothesis]
        simp only [List.map_cons, List.mem_cons, elsewhere, false_or]
        split <;> rfl

/-- No two rows of a tally have the same label. -/
theorem tally_nodup (entries : List α) :
    ((grouping.tally entries).map grouping.rowLabel).Nodup := by
  induction entries using List.reverseRecOn with
  | nil => exact List.nodup_nil
  | append_singleton entries entry inductionHypothesis =>
      rw [tally_append_singleton, map_rowLabel_add]
      split
      · exact inductionHypothesis
      · next new =>
        rw [← List.concat_eq_append]
        exact inductionHypothesis.concat new

/-- A tally has at most as many rows as there are labels. -/
theorem length_tally_le
    {entries : List α}
    {labels : Finset ι}
    (labelled : ∀ row ∈ grouping.tally entries, grouping.rowLabel row ∈ labels) :
    (grouping.tally entries).length ≤ labels.card := by
  have distinct := List.toFinset_card_of_nodup (grouping.tally_nodup entries)
  have inside : ((grouping.tally entries).map grouping.rowLabel).toFinset ⊆ labels := by
    intro label member
    obtain ⟨row, inTally, rfl⟩ := List.mem_map.mp (List.mem_toFinset.mp member)
    exact labelled row inTally
  calc
    (grouping.tally entries).length
        = ((grouping.tally entries).map grouping.rowLabel).toFinset.card := by
          rw [distinct, List.length_map]
    _ ≤ labels.card := Finset.card_le_card inside

/-- The rows after adding an entry: those with other labels, and the row of its
own label. -/
theorem mem_add
    {rows : List β}
    (distinct : (rows.map grouping.rowLabel).Nodup)
    (entry : α)
    (row : β) :
    row ∈ grouping.add rows entry ↔
      (row ∈ rows ∧ grouping.rowLabel row ≠ grouping.label entry) ∨
      (∃ old ∈ rows, grouping.rowLabel old = grouping.label entry ∧
        row = grouping.merge old entry) ∨
      ((∀ old ∈ rows, grouping.rowLabel old ≠ grouping.label entry) ∧
        row = grouping.start entry) := by
  induction rows with
  | nil => simp [add]
  | cons first rows inductionHypothesis =>
      obtain ⟨new, rest⟩ := List.nodup_cons.mp distinct
      unfold add
      by_cases here : grouping.rowLabel first = grouping.label entry
      · have others : ∀ old ∈ rows, grouping.rowLabel old ≠ grouping.label entry := by
          intro old member same
          exact new (here ▸ same ▸ List.mem_map_of_mem member)
        rw [if_pos here]
        constructor
        · intro member
          rcases List.mem_cons.mp member with rfl | later
          · exact .inr (.inl ⟨first, List.mem_cons_self, here, rfl⟩)
          · exact .inl ⟨List.mem_cons_of_mem _ later, others row later⟩
        · rintro (⟨member, other⟩ | ⟨old, member, same, rfl⟩ | ⟨absent, _⟩)
          · rcases List.mem_cons.mp member with rfl | later
            · exact absurd here other
            · exact List.mem_cons_of_mem _ later
          · rcases List.mem_cons.mp member with rfl | later
            · exact List.mem_cons_self
            · exact absurd same (others old later)
          · exact absurd here (absent first List.mem_cons_self)
      · rw [if_neg here, List.mem_cons, inductionHypothesis rest]
        constructor
        · rintro (rfl | ⟨member, other⟩ | ⟨old, member, same, rfl⟩ | ⟨absent, rfl⟩)
          · exact .inl ⟨List.mem_cons_self, here⟩
          · exact .inl ⟨List.mem_cons_of_mem _ member, other⟩
          · exact .inr (.inl ⟨old, List.mem_cons_of_mem _ member, same, rfl⟩)
          · exact .inr (.inr ⟨List.forall_mem_cons.mpr ⟨here, absent⟩, rfl⟩)
        · rintro (⟨member, other⟩ | ⟨old, member, same, rfl⟩ | ⟨absent, rfl⟩)
          · rcases List.mem_cons.mp member with rfl | later
            · exact .inl rfl
            · exact .inr (.inl ⟨later, other⟩)
          · rcases List.mem_cons.mp member with rfl | later
            · exact absurd same here
            · exact .inr (.inr (.inl ⟨old, later, same, rfl⟩))
          · exact .inr (.inr (.inr ⟨(List.forall_mem_cons.mp absent).2, rfl⟩))

omit [DecidableEq ι] in
/-- The summary of a longer group. -/
theorem summary_append_singleton (entries : List α) (entry : α) :
    grouping.summary (entries ++ [entry]) =
      some (match grouping.summary entries with
        | none => grouping.start entry
        | some row => grouping.merge row entry) := by
  cases entries with
  | nil => rfl
  | cons first rest => simp [summary]

theorem group_append_singleton (entries : List α) (entry : α) (label : ι) :
    grouping.group (entries ++ [entry]) label =
      if grouping.label entry = label then grouping.group entries label ++ [entry]
      else grouping.group entries label :=
  filter_append_singleton (fun entry => grouping.label entry = label) entries entry

omit [DecidableEq ι] in
/-- The row of a group has the label of its entries. -/
theorem rowLabel_foldl_merge (rest : List α) (row : β) :
    grouping.rowLabel (rest.foldl grouping.merge row) = grouping.rowLabel row := by
  induction rest generalizing row with
  | nil => rfl
  | cons entry rest inductionHypothesis =>
      rw [List.foldl_cons, inductionHypothesis, grouping.rowLabel_merge]

/-- The row of the group of a label has that label. -/
theorem rowLabel_of_summary
    {entries : List α}
    {label : ι}
    {row : β}
    (summarised : grouping.summary (grouping.group entries label) = some row) :
    grouping.rowLabel row = label := by
  cases members : grouping.group entries label with
  | nil =>
      rw [members] at summarised
      cases summarised
  | cons first rest =>
      rw [members, summary] at summarised
      obtain rfl := Option.some.inj summarised
      have member : first ∈ grouping.group entries label := by
        rw [members]
        exact List.mem_cons_self
      rw [rowLabel_foldl_merge, grouping.rowLabel_start]
      simpa [group] using (List.mem_filter.mp member).2

/-- The rows of a tally are the summaries of the groups of its entries. -/
theorem mem_tally_iff (entries : List α) (row : β) :
    row ∈ grouping.tally entries ↔
      grouping.summary (grouping.group entries (grouping.rowLabel row)) = some row := by
  induction entries using List.reverseRecOn generalizing row with
  | nil => simp [group, summary]
  | append_singleton entries entry inductionHypothesis =>
      rw [tally_append_singleton, grouping.mem_add (grouping.tally_nodup entries),
        group_append_singleton]
      by_cases own : grouping.label entry = grouping.rowLabel row
      · rw [if_pos own, summary_append_singleton]
        constructor
        · rintro (⟨_, other⟩ | ⟨old, member, same, rfl⟩ | ⟨absent, rfl⟩)
          · exact absurd own.symm other
          · have present := (inductionHypothesis old).mp member
            rw [grouping.rowLabel_merge, present]
          · cases summarised : grouping.summary
                (grouping.group entries (grouping.rowLabel (grouping.start entry))) with
            | none => rfl
            | some old =>
                have label := grouping.rowLabel_of_summary summarised
                have member : old ∈ grouping.tally entries := by
                  rw [inductionHypothesis, label]
                  exact summarised
                exact absurd (label.trans own.symm) (absent old member)
        · intro summarised
          cases before : grouping.summary (grouping.group entries (grouping.rowLabel row)) with
          | none =>
              rw [before] at summarised
              refine .inr (.inr ⟨?_, (Option.some.inj summarised).symm⟩)
              intro old member same
              have present := (inductionHypothesis old).mp member
              rw [same, own, before] at present
              cases present
          | some old =>
              rw [before] at summarised
              have label := grouping.rowLabel_of_summary before
              refine .inr (.inl ⟨old, ?_, label.trans own.symm,
                (Option.some.inj summarised).symm⟩)
              rw [inductionHypothesis, label]
              exact before
      · rw [if_neg own, ← inductionHypothesis]
        constructor
        · rintro (⟨member, _⟩ | ⟨old, _, same, rfl⟩ | ⟨_, rfl⟩)
          · exact member
          · exact absurd (same.symm.trans (grouping.rowLabel_merge old entry).symm) own
          · exact absurd (grouping.rowLabel_start entry).symm own
        · intro member
          exact .inl ⟨member, Ne.symm own⟩

/-- Every entry has a row. -/
theorem exists_row_of_mem
    {entries : List α}
    {entry : α}
    (member : entry ∈ entries) :
    ∃ row ∈ grouping.tally entries, grouping.rowLabel row = grouping.label entry := by
  have inGroup : entry ∈ grouping.group entries (grouping.label entry) := by
    simp [group, member]
  cases members : grouping.group entries (grouping.label entry) with
  | nil =>
      rw [members] at inGroup
      cases inGroup
  | cons first rest =>
      have summarised : grouping.summary (grouping.group entries (grouping.label entry)) =
          some (rest.foldl grouping.merge (grouping.start first)) := by
        rw [members, summary]
      have label := grouping.rowLabel_of_summary summarised
      refine ⟨_, ?_, label⟩
      rw [mem_tally_iff, label]
      exact summarised

/-- The row of a label is the summary of its group, which has a first entry. -/
theorem exists_first_of_mem_tally
    {entries : List α}
    {row : β}
    (member : row ∈ grouping.tally entries) :
    ∃ first rest, grouping.group entries (grouping.rowLabel row) = first :: rest ∧
      row = rest.foldl grouping.merge (grouping.start first) := by
  have summarised := (grouping.mem_tally_iff entries row).mp member
  cases members : grouping.group entries (grouping.rowLabel row) with
  | nil =>
      rw [members] at summarised
      cases summarised
  | cons first rest =>
      rw [members, summary] at summarised
      exact ⟨first, rest, rfl, (Option.some.inj summarised).symm⟩

/-- Every row has an entry. -/
theorem exists_entry_of_mem_tally
    {entries : List α}
    {row : β}
    (member : row ∈ grouping.tally entries) :
    ∃ entry ∈ entries, grouping.label entry = grouping.rowLabel row := by
  obtain ⟨first, rest, members, _⟩ := grouping.exists_first_of_mem_tally member
  have inGroup : first ∈ grouping.group entries (grouping.rowLabel row) := by
    rw [members]
    exact List.mem_cons_self
  obtain ⟨inside, label⟩ := List.mem_filter.mp inGroup
  exact ⟨first, inside, by simpa using label⟩

/-- Groups whose labels cover the entries have as many members as there are
entries. -/
theorem sum_length_group
    {labels : List ι}
    (distinct : labels.Nodup)
    (entries : List α)
    (covers : ∀ entry ∈ entries, grouping.label entry ∈ labels) :
    (labels.map fun label => (grouping.group entries label).length).sum = entries.length := by
  induction entries with
  | nil => simp [group]
  | cons entry entries inductionHypothesis =>
      obtain ⟨here, later⟩ := List.forall_mem_cons.mp covers
      have one : ∀ others : List ι,
          (others.map fun label => if grouping.label entry = label then 1 else 0).sum =
            others.count (grouping.label entry) := by
        intro others
        induction others with
        | nil => rfl
        | cons label others inductionHypothesis =>
            have same : grouping.label entry = label ↔ (label == grouping.label entry) = true := by
              rw [beq_iff_eq, eq_comm]
            rw [List.map_cons, List.sum_cons, inductionHypothesis, List.count_cons, Nat.add_comm,
              if_congr same rfl rfl]
      have longer : ∀ label, (grouping.group (entry :: entries) label).length =
          (if grouping.label entry = label then 1 else 0) +
            (grouping.group entries label).length := by
        intro label
        unfold group
        by_cases same : grouping.label entry = label
        · simp [same, Nat.add_comm]
        · simp [same]
      simp only [longer]
      rw [List.sum_map_add, one, List.count_eq_one_of_mem distinct here,
        inductionHypothesis later, List.length_cons, Nat.add_comm]

/-! ## Additive quantities -/

section Additive

variable {M : Type*} [AddCommMonoid M] {weight : β → M} {share : α → M}

/-- A row of a tally adds up the shares of its group. -/
theorem weight_of_mem_tally
    (started : ∀ entry, weight (grouping.start entry) = share entry)
    (merged : ∀ row entry, weight (grouping.merge row entry) = weight row + share entry)
    {entries : List α}
    {row : β}
    (member : row ∈ grouping.tally entries) :
    weight row = ((grouping.group entries (grouping.rowLabel row)).map share).sum := by
  have folded : ∀ (rest : List α) (row : β),
      weight (rest.foldl grouping.merge row) = weight row + (rest.map share).sum := by
    intro rest
    induction rest with
    | nil => simp
    | cons entry rest inductionHypothesis =>
        intro row
        rw [List.foldl_cons, inductionHypothesis, merged, List.map_cons, List.sum_cons, add_assoc]
  obtain ⟨first, rest, members, whole⟩ := grouping.exists_first_of_mem_tally member
  rw [members, List.map_cons, List.sum_cons, ← started, ← folded, ← whole]

end Additive

end Grouping

end Foundations
