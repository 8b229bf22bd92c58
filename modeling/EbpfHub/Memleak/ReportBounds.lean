import EbpfHub.Memleak.Rows

/-!
# The array of the report is not overrun

The walk may restart as often as the map under it changes, so the number of its
iterations bounds nothing.  The rows in use have distinct stacks, and there are
no more stacks than buckets.
-/

namespace EbpfHub
namespace Memleak

open Foundations

/-- The reports at the iterations of the loop, and the one that it ends with. -/
def iterations (minAgeNs : U64) : U64 → Report → List Pass → List Report
  | _, report, [] => [report]
  | prevKey, report, pass :: passes =>
      report ::
        match pass.getNextKey prevKey with
        | .error _ => []
        | .ok currKey =>
            match pass.lookupElem currKey with
            | .error .enoent => iterations minAgeNs currKey report passes
            | .error (.other _) => []
            | .ok info =>
                iterations minAgeNs currKey (report.visit minAgeNs pass.ktime info) passes

/-- The report of a walk, complete or not, is the one of an iteration. -/
theorem walk_mem_iterations
    {minAgeNs prevKey : U64}
    {report final : Report}
    {passes : List Pass}
    (ends : walk minAgeNs prevKey report passes = some (.ok final) ∨
      ∃ errno, walk minAgeNs prevKey report passes = some (.error (errno, final))) :
    final ∈ iterations minAgeNs prevKey report passes := by
  induction passes generalizing prevKey report with
  | nil => simp [walk] at ends
  | cons pass passes inductionHypothesis =>
      unfold walk at ends
      unfold iterations
      cases next : pass.getNextKey prevKey with
      | error errno => cases errno <;> simp_all
      | ok currKey =>
          rw [next] at ends
          dsimp only at ends ⊢
          cases lookup : pass.lookupElem currKey with
          | error errno =>
              rw [lookup] at ends
              cases errno with
              | enoent => exact List.mem_cons_of_mem _ (inductionHypothesis ends)
              | other errno => simp_all
          | ok info =>
              rw [lookup] at ends
              exact List.mem_cons_of_mem _ (inductionHypothesis ends)

/-- The row that a counted record is merged into or appended as. -/
def Report.rowIndex (report : Report) (info : AllocInfo) : Nat :=
  (findStack report.allocs (info.stackId.signExtend 64) report.nrAllocs 0).getD report.nrAllocs

/-- The written row is one in use or the next one. -/
theorem Report.rowIndex_le (report : Report) (info : AllocInfo) :
    report.rowIndex info ≤ report.nrAllocs := by
  unfold rowIndex
  cases search : findStack report.allocs (info.stackId.signExtend 64) report.nrAllocs 0 with
  | some found =>
      have bounds := findStack_bounds search
      rw [Option.getD_some]
      omega
  | none => exact Nat.le_refl _

/-! ## The rows have distinct stacks -/

/-- The report tallies records that the map calls of the passes answered with. -/
def FromAnswers (minAgeNs : U64) (passes : List Pass) (report : Report) : Prop :=
  ∃ entries, Tallies minAgeNs report entries ∧
    ∀ entry ∈ entries, ∃ pass ∈ passes, ∃ key, pass.lookupElem key = .ok entry.info

/-- Every iteration tallies records that the passes so far answered with. -/
theorem iterations_fromAnswers
    {minAgeNs prevKey : U64}
    {report : Report}
    {earlier passes : List Pass}
    (start : FromAnswers minAgeNs earlier report) :
    ∀ reached ∈ iterations minAgeNs prevKey report passes,
      FromAnswers minAgeNs (earlier ++ passes) reached := by
  induction passes generalizing prevKey report earlier with
  | nil =>
      intro reached member
      rw [List.append_nil, List.mem_singleton.mp member]
      exact start
  | cons pass passes inductionHypothesis =>
      have widened : ∀ {more : List Pass} {report : Report},
          FromAnswers minAgeNs earlier report → FromAnswers minAgeNs (earlier ++ more) report := by
        rintro more report ⟨entries, tallies, answered⟩
        refine ⟨entries, tallies, fun entry member => ?_⟩
        obtain ⟨answer, inside, found⟩ := answered entry member
        exact ⟨answer, List.mem_append_left _ inside, found⟩
      have regrouped : earlier ++ pass :: passes = (earlier ++ [pass]) ++ passes := by simp
      intro reached member
      unfold iterations at member
      rcases List.mem_cons.mp member with rfl | later
      · exact widened start
      · rw [regrouped]
        cases next : pass.getNextKey prevKey with
        | error errno => simp [next] at later
        | ok currKey =>
            rw [next] at later
            dsimp only at later
            cases lookup : pass.lookupElem currKey with
            | error errno =>
                rw [lookup] at later
                cases errno with
                | enoent => exact inductionHypothesis (widened start) reached later
                | other errno => simp at later
            | ok info =>
                rw [lookup] at later
                refine inductionHypothesis ?_ reached later
                obtain ⟨entries, tallies, answered⟩ := start
                refine ⟨_, tallies.visit ⟨currKey, info, pass.ktime⟩, fun entry member => ?_⟩
                rcases List.mem_append.mp member with old | new
                · obtain ⟨answer, inside, found⟩ := answered entry old
                  exact ⟨answer, List.mem_append_left _ inside, found⟩
                · obtain rfl := List.mem_singleton.mp new
                  exact ⟨pass, by simp, currKey, lookup⟩

/-- The rows in use have distinct stacks, no more than there are buckets, and
every row that a record can be written to is within the array. -/
structure WithinArray (buckets : Nat) (report : Report) : Prop where
  distinct : (report.rows.map Allocation.stackId).Nodup
  nonneg : ∀ row ∈ report.rows, 0 ≤ row.stackId.toInt
  nrAllocs_le : report.nrAllocs ≤ buckets
  write : ∀ info, report.rowIndex info < allocsMaxEntries

/-- The stack of a row is that of an answer with a valid stack. -/
theorem FromAnswers.stackId_bounds
    {minAgeNs : U64}
    {passes : List Pass}
    {report : Report}
    {buckets : Nat}
    (answers : FromAnswers minAgeNs passes report)
    (stored : ∀ pass ∈ passes, ∀ key info, pass.lookupElem key = .ok info →
      0 ≤ info.stackId.toInt → info.stackId.toInt < buckets)
    {row : Allocation}
    (member : row ∈ report.rows) :
    0 ≤ row.stackId.toInt ∧ row.stackId.toInt < buckets := by
  obtain ⟨entries, tallies, answered⟩ := answers
  rw [tallies.rows] at member
  obtain ⟨info, inCounted, label⟩ := byStack.exists_entry_of_mem_tally member
  obtain ⟨entry, counted, rfl⟩ := List.mem_map.mp inCounted
  obtain ⟨found, passed⟩ := List.mem_filter.mp counted
  have hasStack : ¬entry.info.stackId.toInt < 0 := (decide_eq_true_eq.mp passed).2
  obtain ⟨pass, inside, key, lookup⟩ := answered entry found
  have extended : row.stackId.toInt = entry.info.stackId.toInt := by
    have same : entry.info.stackId.signExtend 64 = row.stackId := label
    rw [← same, BitVec.toInt_signExtend_of_le (by decide)]
  have below := stored pass inside key entry.info lookup (by omega)
  omega

/-- A report of answers with valid stacks stays within the array. -/
theorem FromAnswers.withinArray
    {minAgeNs : U64}
    {passes : List Pass}
    {report : Report}
    {buckets : Nat}
    (answers : FromAnswers minAgeNs passes report)
    (few : buckets ≤ 16384)
    (stored : ∀ pass ∈ passes, ∀ key info, pass.lookupElem key = .ok info →
      0 ≤ info.stackId.toInt → info.stackId.toInt < buckets) :
    WithinArray buckets report := by
  have bounds : ∀ row ∈ report.rows, 0 ≤ row.stackId.toInt ∧ row.stackId.toInt < buckets :=
    fun row member => answers.stackId_bounds stored member
  obtain ⟨entries, tallies, -⟩ := answers
  have labelled : ∀ row ∈ byStack.tally ((counted minAgeNs entries).map Found.info),
      byStack.rowLabel row ∈
        (Finset.range buckets).image fun number : Nat => BitVec.ofInt 64 number := by
    intro row member
    rw [← tallies.rows] at member
    obtain ⟨nonneg, below⟩ := bounds row member
    refine Finset.mem_image.mpr ⟨row.stackId.toInt.toNat, ?_, ?_⟩
    · rw [Finset.mem_range]
      omega
    · rw [Int.toNat_of_nonneg nonneg]
      exact BitVec.ofInt_toInt
  have nrAllocs_le : report.nrAllocs ≤ buckets := by
    calc
      report.nrAllocs = report.rows.length := by simp [Report.rows]
      _ = (byStack.tally ((counted minAgeNs entries).map Found.info)).length := by
          rw [tallies.rows]
      _ ≤ ((Finset.range buckets).image fun number : Nat => BitVec.ofInt 64 number).card :=
          byStack.length_tally_le labelled
      _ ≤ (Finset.range buckets).card := Finset.card_image_le
      _ = buckets := Finset.card_range buckets
  refine ⟨?_, fun row member => (bounds row member).1, nrAllocs_le, ?_⟩
  · rw [tallies.rows]
    exact byStack.tally_nodup _
  · intro info
    calc
      report.rowIndex info ≤ report.nrAllocs := report.rowIndex_le info
      _ ≤ 16384 := nrAllocs_le.trans few
      _ < allocsMaxEntries := by decide

/-- At every iteration of a walk, whatever the map calls answer, the report
stays within the array, if the stacks in the answers are numbers of buckets. -/
theorem report_within_array
    (minAgeNs : U64)
    (allocs : Nat → Allocation)
    (passes : List Pass)
    (buckets : Nat)
    (few : buckets ≤ 16384)
    (stored : ∀ pass ∈ passes, ∀ key info, pass.lookupElem key = .ok info →
      0 ≤ info.stackId.toInt → info.stackId.toInt < buckets) :
    ∀ report ∈ iterations minAgeNs 0 (Report.start allocs) passes,
      WithinArray buckets report := by
  intro report member
  have start : FromAnswers minAgeNs [] (Report.start allocs) :=
    ⟨[], Tallies.start minAgeNs allocs, by simp⟩
  exact (iterations_fromAnswers start report member).withinArray few stored

/-- The answers that lead to a key and its record. -/
def Pass.answering (key : U64) (stackId : BitVec 32) : Pass where
  getNextKey := fun _ => .ok key
  lookupElem := fun _ => .ok ⟨16, 0, stackId, fun _ => 0, 0⟩
  ktime := 0

/-- A walk that restarts finds an address with another stack than before, so
that the report has three rows for two addresses. -/
theorem report_within_array_restarted :
    ∃ report ∈ iterations 0 0 (Report.start fun _ => ⟨0, 0, 0, fun _ => 0, 0⟩)
        [.answering 4096 5, .answering 8192 7, .answering 4096 9],
      report.nrAllocs = 3 ∧ WithinArray 16384 report := by
  refine ⟨_, List.mem_of_getElem? (i := 3) rfl, by decide, ?_⟩
  refine report_within_array 0 (fun _ => ⟨0, 0, 0, fun _ => 0, 0⟩)
    [.answering 4096 5, .answering 8192 7, .answering 4096 9] 16384 (by decide) ?_ _
    (List.mem_of_getElem? (i := 3) rfl)
  simp only [List.forall_mem_cons, Pass.answering]
  refine ⟨?_, ?_, ?_, by simp⟩
  · rintro _ _ ⟨⟩ -
    decide
  · rintro _ _ ⟨⟩ -
    decide
  · rintro _ _ ⟨⟩ -
    decide

end Memleak
end EbpfHub
