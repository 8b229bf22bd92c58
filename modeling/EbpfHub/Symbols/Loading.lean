import EbpfHub.Symbols.SymTable

/-!
# What a load adds to the table

The nested loops over the sections, the data blocks and the entries of a file
add its symbols in order, or end with an error.  Each loop is described by what
it adds and by the condition on the sizes that it divides by.
-/

namespace EbpfHub
namespace Symbols

/-! ## The symbols of a file -/

/-- The symbol of an entry, if it can be read and has a name and a value. -/
def ElfData.symAt (data : ElfData) (i : Nat) : Option Sym :=
  (data.getsym i).bind fun sym =>
    sym.name.bind fun name =>
      if name = [] ∨ sym.stValue = 0 then none
      else some ⟨name, sym.stValue, sym.stSize, 0⟩

/-- The symbols of a data block with entries of a size. -/
def ElfData.symbols (symsize : Nat) (data : ElfData) : List Sym :=
  (List.range (data.dSize / symsize)).filterMap data.symAt

/-- The data block is a sequence of entries of the size. -/
def ElfData.WellSized (symsize : Nat) (data : ElfData) : Prop :=
  symsize ≠ 0 ∧ data.dSize % symsize = 0

/-- The symbols of a section. -/
def ElfScn.symbols (scn : ElfScn) : List Sym :=
  match scn.header with
  | none => []
  | some header =>
      if header.isSymTable then scn.data.flatMap (ElfData.symbols header.shEntsize) else []

/-- The data blocks of a section are sequences of its entries, if it is a
symbol table. -/
def ElfScn.WellSized (scn : ElfScn) : Prop :=
  match scn.header with
  | none => True
  | some header =>
      header.isSymTable = true → ∀ data ∈ scn.data, data.WellSized header.shEntsize

/-- The symbols of a file, in the order of sections and entries. -/
def Elf.symbols (elf : Elf) : List Sym := elf.sections.flatMap ElfScn.symbols

/-- A symbol can be added to the table of the dso at the index. -/
def Dso.CanAdd (system : System) (dso : Dso) (k : Nat) : Prop :=
  dso.hasBtf = true ∧ system.addSymFails dso.name k = false

/-- A load of the file for the dso meets no size that it cannot divide by, and
all symbols can be added. -/
structure Elf.LoadsCleanly (system : System) (dso : Dso) (elf : Elf) : Prop where
  wellSized : ∀ scn ∈ elf.sections, scn.WellSized
  room : ∀ k < elf.symbols.length, dso.CanAdd system k

/-! ## Adding symbols -/

namespace Dso

/-- The dso with more symbols. -/
def append (dso : Dso) (added : List Sym) : Dso :=
  if added = [] then dso else { dso with syms := some (dso.table ++ added) }

@[simp] theorem append_nil (dso : Dso) : dso.append [] = dso := rfl

@[simp] theorem name_append (dso : Dso) (added : List Sym) :
    (dso.append added).name = dso.name := by
  unfold append
  split <;> rfl

@[simp] theorem hasBtf_append (dso : Dso) (added : List Sym) :
    (dso.append added).hasBtf = dso.hasBtf := by
  unfold append
  split <;> rfl

@[simp] theorem released_append (dso : Dso) (added : List Sym) :
    (dso.append added).released = dso.released := by
  unfold append
  split <;> rfl

@[simp] theorem table_append (dso : Dso) (added : List Sym) :
    (dso.append added).table = dso.table ++ added := by
  unfold append
  split
  · next empty => rw [empty, List.append_nil]
  · rfl

theorem append_append (dso : Dso) (first second : List Sym) :
    (dso.append first).append second = dso.append (first ++ second) := by
  cases first with
  | nil => rfl
  | cons sym first =>
      cases second with
      | nil => rw [append_nil, List.append_nil]
      | cons other second =>
          have both : sym :: first ++ other :: second ≠ [] := List.cons_ne_nil _ _
          unfold append
          rw [if_neg (List.cons_ne_nil _ _), if_neg (List.cons_ne_nil _ _), if_neg both]
          simp [table]

@[simp] theorem canAdd_append
    (system : System)
    (dso : Dso)
    (added : List Sym)
    (k : Nat) :
    (dso.append added).CanAdd system k ↔ dso.CanAdd system k := by
  unfold CanAdd
  rw [name_append, hasBtf_append]

/-- The next additions to the table, of the number, do not fail. -/
def HasRoom (system : System) (dso : Dso) (count : Nat) : Prop :=
  ∀ k < count, dso.CanAdd system (dso.table.length + k)

theorem hasRoom_append
    (system : System)
    (dso : Dso)
    (added : List Sym)
    (count : Nat) :
    dso.HasRoom system (added.length + count) ↔
      dso.HasRoom system added.length ∧ (dso.append added).HasRoom system count := by
  unfold HasRoom
  simp only [canAdd_append, table_append, List.length_append]
  constructor
  · intro room
    refine ⟨fun k below => room k (by omega), fun k below => ?_⟩
    rw [Nat.add_assoc]
    exact room (added.length + k) (by omega)
  · rintro ⟨front, back⟩ k below
    rcases Nat.lt_or_ge k added.length with inFront | inBack
    · exact front k inFront
    · have next := back (k - added.length) (by omega)
      rwa [Nat.add_assoc, Nat.add_sub_cancel' inBack] at next

end Dso

/-- What can stop a load of symbols for the dso. -/
def Dso.LoadFault (dso : Dso) (fault : Fault) : Prop :=
  fault = .divideByZero ∨ dso.hasBtf = false ∧ fault = .readNull

/-- The ways in which adding symbols to a dso ends with an error. -/
def AddFailure (dso : Dso) (failure : Failure) : Prop :=
  (∃ fault, dso.LoadFault fault ∧ failure = .fault fault) ∨
    ∃ taken, failure = .failed (dso.append taken)

/-- A failure after some symbols were added is one of the whole. -/
theorem AddFailure.of_append
    {dso : Dso}
    {added : List Sym}
    {failure : Failure}
    (fails : AddFailure (dso.append added) failure) :
    AddFailure dso failure := by
  rcases fails with ⟨fault, kind, stops⟩ | ⟨taken, failed⟩
  · unfold Dso.LoadFault at kind
    rw [Dso.hasBtf_append] at kind
    exact .inl ⟨fault, kind, stops⟩
  · rw [Dso.append_append] at failed
    exact .inr ⟨added ++ taken, failed⟩

/-- The step adds the symbols to every dso that has not been released, unless a
size is wrong or an addition fails. -/
structure Adds
    (system : System)
    (step : Dso → Except Failure Dso)
    (added : List Sym)
    (wellSized : Prop) : Prop where
  ok : ∀ dso, dso.released = false → wellSized → dso.HasRoom system added.length →
    step dso = .ok (dso.append added)
  error : ∀ dso, dso.released = false → ¬(wellSized ∧ dso.HasRoom system added.length) →
    ∃ failure, step dso = .error failure ∧ AddFailure dso failure

namespace Adds

variable {system : System}

/-- A loop adds what its steps add. -/
theorem foldlM
    {step : Dso → α → Except Failure Dso}
    {added : α → List Sym}
    {wellSized : α → Prop}
    (each : ∀ item, Adds system (step · item) (added item) (wellSized item))
    (items : List α) :
    Adds system (fun dso => items.foldlM step dso) (items.flatMap added)
      (∀ item ∈ items, wellSized item) := by
  induction items with
  | nil =>
      refine ⟨fun _ _ _ _ => rfl, fun dso _ fails => absurd ⟨?_, ?_⟩ fails⟩
      · simp
      · simp [Dso.HasRoom]
  | cons item items inductionHypothesis =>
      constructor
      · intro dso alive sized room
        obtain ⟨first, rest⟩ := List.forall_mem_cons.mp sized
        rw [List.flatMap_cons, List.length_append, Dso.hasRoom_append] at room
        have head := (each item).ok dso alive first room.1
        have tail := inductionHypothesis.ok (dso.append (added item))
          ((dso.released_append _).trans alive) rest room.2
        rw [List.foldlM_cons, head, List.flatMap_cons, ← Dso.append_append]
        exact tail
      · intro dso alive fails
        by_cases head : wellSized item ∧ dso.HasRoom system (added item).length
        · have step := (each item).ok dso alive head.1 head.2
          have rest : ¬((∀ item ∈ items, wellSized item) ∧
              (dso.append (added item)).HasRoom system (items.flatMap added).length) := by
            rintro ⟨sized, room⟩
            apply fails
            refine ⟨List.forall_mem_cons.mpr ⟨head.1, sized⟩, ?_⟩
            rw [List.flatMap_cons, List.length_append, Dso.hasRoom_append]
            exact ⟨head.2, room⟩
          obtain ⟨failure, failed, kind⟩ := inductionHypothesis.error (dso.append (added item))
            ((dso.released_append _).trans alive) rest
          refine ⟨failure, ?_, kind.of_append⟩
          rw [List.foldlM_cons, step]
          exact failed
        · obtain ⟨failure, failed, kind⟩ := (each item).error dso alive head
          refine ⟨failure, ?_, kind⟩
          rw [List.foldlM_cons, failed]
          rfl

/-- A step that adds nothing. -/
theorem skip : Adds system .ok [] True :=
  ⟨fun _ _ _ _ => rfl, fun dso _ fails => absurd ⟨trivial, by simp [Dso.HasRoom]⟩ fails⟩

end Adds

/-! ## The loops -/

theorem adds_dsoAddSym (system : System) (name : Name) (start size : U64) :
    Adds system (fun dso => dsoAddSym system dso name start size) [⟨name, start, size, 0⟩]
      True := by
  have hasRoom_one : ∀ dso : Dso, dso.HasRoom system 1 ↔
      dso.CanAdd system dso.table.length := by
    intro dso
    unfold Dso.HasRoom
    constructor
    · exact fun room => room 0 Nat.one_pos
    · intro room k below
      obtain rfl : k = 0 := by omega
      exact room
  constructor
  · intro dso alive _ room
    rw [List.length_singleton, hasRoom_one] at room
    simp [dsoAddSym, alive, room.1, room.2, Dso.append]
  · intro dso alive fails
    rw [List.length_singleton, hasRoom_one, true_and] at fails
    cases strings : dso.hasBtf with
    | false =>
        refine ⟨.fault .readNull, ?_, .inl ⟨.readNull, .inr ⟨strings, rfl⟩, rfl⟩⟩
        simp [dsoAddSym, alive, strings]
    | true =>
        have full : system.addSymFails dso.name dso.table.length = true :=
          Bool.eq_true_of_not_eq_false fun room => fails ⟨strings, room⟩
        refine ⟨.failed dso, ?_, .inr ⟨[], rfl⟩⟩
        simp [dsoAddSym, alive, strings, full]

theorem adds_dsoAddEntry (system : System) (data : ElfData) (i : Nat) :
    Adds system (fun dso => dsoAddEntry system data dso i) (data.symAt i).toList True := by
  unfold dsoAddEntry ElfData.symAt
  cases data.getsym i with
  | none => exact .skip
  | some sym =>
      rw [Option.bind_some]
      dsimp only
      cases sym.name with
      | none => exact .skip
      | some name =>
          rw [Option.bind_some]
          dsimp only
          by_cases unnamed : name = []
          · simp only [if_pos unnamed, if_pos (Or.inl unnamed)]
            exact .skip
          · by_cases valueless : sym.stValue = 0
            · simp only [if_neg unnamed, if_pos valueless, if_pos (Or.inr valueless)]
              exact .skip
            · simp only [if_neg unnamed, if_neg valueless, if_neg (not_or.mpr ⟨unnamed, valueless⟩)]
              exact adds_dsoAddSym system name sym.stValue sym.stSize

theorem adds_dsoAddData (system : System) (symsize : Nat) (data : ElfData) :
    Adds system (fun dso => dsoAddData system symsize dso data) (data.symbols symsize)
      (data.WellSized symsize) := by
  have entries := Adds.foldlM (adds_dsoAddEntry system data)
    (List.range (data.dSize / symsize))
  rw [← List.filterMap_eq_flatMap_toList] at entries
  constructor
  · intro dso alive sized room
    have loop := entries.ok dso alive (fun _ _ => trivial) room
    rw [dsoAddData, if_neg sized.1, if_neg (not_not.mpr sized.2)]
    exact loop
  · intro dso alive fails
    by_cases zero : symsize = 0
    · exact ⟨.fault .divideByZero, by rw [dsoAddData, if_pos zero],
        .inl ⟨.divideByZero, .inl rfl, rfl⟩⟩
    · by_cases whole : data.dSize % symsize = 0
      · obtain ⟨failure, failed, kind⟩ := entries.error dso alive
          fun both => fails ⟨⟨zero, whole⟩, both.2⟩
        refine ⟨failure, ?_, kind⟩
        rw [dsoAddData, if_neg zero, if_neg (not_not.mpr whole)]
        exact failed
      · exact ⟨.failed dso, by rw [dsoAddData, if_neg zero, if_pos whole], .inr ⟨[], rfl⟩⟩

theorem adds_dsoAddSection (system : System) (scn : ElfScn) :
    Adds system (fun dso => dsoAddSection system dso scn) scn.symbols scn.WellSized := by
  unfold dsoAddSection ElfScn.symbols ElfScn.WellSized
  cases scn.header with
  | none => exact .skip
  | some header =>
      dsimp only
      cases isTable : header.isSymTable with
      | false =>
          simp only [Bool.false_eq_true, if_false, false_implies]
          exact .skip
      | true =>
          simp only [if_true, true_implies]
          exact Adds.foldlM (adds_dsoAddData system header.shEntsize) scn.data

/-- The loop over the sections adds the symbols of the file. -/
theorem adds_sections (system : System) (elf : Elf) :
    Adds system (fun dso => elf.sections.foldlM (dsoAddSection system) dso) elf.symbols
      (∀ scn ∈ elf.sections, scn.WellSized) :=
  Adds.foldlM (adds_dsoAddSection system) elf.sections

/-! ## The load of a dso -/

/-- A dso whose symbols have not been loaded. -/
structure Dso.Fresh (dso : Dso) : Prop where
  unloaded : dso.syms = none
  alive : dso.released = false

/-- The dso with the sorted symbols of a file. -/
def Dso.loaded (qsort : Qsort) (elf : Elf) (dso : Dso) : Dso :=
  { dso with syms := if elf.symbols = [] then none else some (qsort.sort elf.symbols) }

namespace Dso.Fresh

variable {dso : Dso}

theorem table (fresh : dso.Fresh) : dso.table = [] := by
  rw [Dso.table, fresh.unloaded]
  rfl

theorem table_append (fresh : dso.Fresh) (added : List Sym) : (dso.append added).table = added := by
  rw [Dso.table_append, fresh.table, List.nil_append]

theorem alive_append
    (fresh : dso.Fresh)
    (added : List Sym) :
    (dso.append added).released = false := by
  rw [Dso.released_append, fresh.alive]

/-- The first additions are those to an empty table. -/
theorem hasRoom
    (fresh : dso.Fresh)
    (system : System)
    (count : Nat) :
    dso.HasRoom system count ↔ ∀ k < count, dso.CanAdd system k := by
  unfold Dso.HasRoom
  simp only [fresh.table, List.length_nil, Nat.zero_add]

theorem hasRoom_iff
    (fresh : dso.Fresh)
    (system : System)
    (elf : Elf) :
    ((∀ scn ∈ elf.sections, scn.WellSized) ∧ dso.HasRoom system elf.symbols.length) ↔
      elf.LoadsCleanly system dso := by
  rw [fresh.hasRoom]
  exact ⟨fun ⟨sized, room⟩ => ⟨sized, room⟩, fun clean => ⟨clean.wellSized, clean.room⟩⟩

end Dso.Fresh

section Load

variable {system : System} {elf : Elf} {dso : Dso}

/-- Where the loop ends well, so does the load. -/
theorem loadSymTableFromElf_of_ok
    (qsort : Qsort)
    {collected : Dso}
    (loop : elf.sections.foldlM (dsoAddSection system) dso = .ok collected) :
    loadSymTableFromElf system qsort (some elf) dso =
      .ok { collected with syms := collected.syms.map qsort.sort } := by
  rw [loadSymTableFromElf, loop]

/-- Else it stops with a fault or fails, in which case the load releases the
fields. -/
theorem loadSymTableFromElf_of_error
    (qsort : Qsort)
    (fresh : dso.Fresh)
    {failure : Failure}
    (loop : elf.sections.foldlM (dsoAddSection system) dso = .error failure) :
    (∃ fault, dso.LoadFault fault ∧ failure = .fault fault ∧
        loadSymTableFromElf system qsort (some elf) dso = .error (.fault fault)) ∨
      ∃ taken, failure = .failed (dso.append taken) ∧
        loadSymTableFromElf system qsort (some elf) dso =
          .error (.failed { dso.append taken with released := true }) := by
  have adds := adds_sections system elf
  obtain ⟨other, fails, kind⟩ := adds.error dso fresh.alive fun both => by
    have both := (adds.ok dso fresh.alive both.1 both.2).symm.trans loop
    cases both
  obtain rfl : other = failure := Except.error.inj (fails.symm.trans loop)
  unfold loadSymTableFromElf
  dsimp only
  rw [loop]
  rcases kind with ⟨fault, kind, rfl⟩ | ⟨taken, rfl⟩
  · exact .inl ⟨fault, kind, rfl, rfl⟩
  · refine .inr ⟨taken, rfl, ?_⟩
    dsimp only
    rw [Dso.freeFields, if_neg (ne_true_of_eq_false (fresh.alive_append taken))]

/-- A clean load gives the sorted symbols of the file. -/
theorem loadSymTableFromElf_clean
    (qsort : Qsort)
    (fresh : dso.Fresh)
    (clean : elf.LoadsCleanly system dso) :
    loadSymTableFromElf system qsort (some elf) dso = .ok (dso.loaded qsort elf) := by
  obtain ⟨sized, room⟩ := (fresh.hasRoom_iff system elf).mpr clean
  have loop := (adds_sections system elf).ok dso fresh.alive sized room
  rw [loadSymTableFromElf_of_ok qsort loop]
  unfold Dso.append Dso.loaded
  by_cases empty : elf.symbols = []
  · rw [if_pos empty, if_pos empty, fresh.unloaded]
    rfl
  · rw [if_neg empty, if_neg empty, fresh.table]
    rfl

/-- A load that is not clean stops with a fault or releases the fields. -/
theorem loadSymTableFromElf_unclean
    (qsort : Qsort)
    (fresh : dso.Fresh)
    (unclean : ¬elf.LoadsCleanly system dso) :
    (∃ fault, dso.LoadFault fault ∧
        loadSymTableFromElf system qsort (some elf) dso = .error (.fault fault)) ∨
      ∃ taken, loadSymTableFromElf system qsort (some elf) dso =
        .error (.failed { dso.append taken with released := true }) := by
  obtain ⟨failure, loop, -⟩ := (adds_sections system elf).error dso fresh.alive
    fun both => unclean ((fresh.hasRoom_iff system elf).mp both)
  rcases loadSymTableFromElf_of_error qsort fresh loop with
    ⟨fault, kind, -, stops⟩ | ⟨taken, -, fails⟩
  · exact .inl ⟨fault, kind, stops⟩
  · exact .inr ⟨taken, fails⟩

end Load

end Symbols
end EbpfHub
