import EbpfHub.Foundations.Run
import EbpfHub.Symbols.Naming

/-!
# How a load of symbols ends

A load goes through the data blocks of the symbol tables of a file in order.  It
divides by zero at the first block whose entries have no size, fails at the
first that is no sequence of entries or one of whose symbols cannot be added, and
reads a null pointer at the first symbol of a dso that has no strings, whichever
comes first.  Otherwise it ends with the table of the file.
-/

namespace EbpfHub
namespace Symbols

open Foundations

/-! ## The data blocks of a file -/

/-- A data block of a symbol table, and the size of the entries there. -/
structure SymBlock where
  symsize : Nat
  data : ElfData

namespace SymBlock

/-- The symbols of the block. -/
def symbols (block : SymBlock) : List Sym := block.data.symbols block.symsize

/-- The block is a sequence of entries. -/
def WellSized (block : SymBlock) : Prop := block.data.WellSized block.symsize

/-- The block is added to a dso. -/
def load (system : System) (dso : Dso) (block : SymBlock) : Except Failure Dso :=
  dsoAddData system block.symsize dso block.data

end SymBlock

/-- The data blocks of a section, if it is a symbol table. -/
def ElfScn.blocks (scn : ElfScn) : List SymBlock :=
  match scn.header with
  | none => []
  | some header => if header.isSymTable then scn.data.map (.mk header.shEntsize) else []

/-- The data blocks of the symbol tables of a file, in order. -/
def Elf.blocks (elf : Elf) : List SymBlock := elf.sections.flatMap ElfScn.blocks

/-- A section adds its blocks one after the other. -/
theorem dsoAddSection_eq (system : System) (dso : Dso) (scn : ElfScn) :
    dsoAddSection system dso scn = scn.blocks.foldlM (SymBlock.load system) dso := by
  unfold dsoAddSection ElfScn.blocks
  cases scn.header with
  | none => rfl
  | some header =>
      dsimp only
      split
      · rw [List.foldlM_map]
        rfl
      · rfl

/-- The loop over the sections adds the blocks of the file one after the
other. -/
theorem foldlM_dsoAddSection_eq (system : System) (dso : Dso) (elf : Elf) :
    elf.sections.foldlM (dsoAddSection system) dso =
      elf.blocks.foldlM (SymBlock.load system) dso := by
  have flattened : ∀ (sections : List ElfScn) (dso : Dso),
      sections.foldlM (dsoAddSection system) dso =
        (sections.flatMap ElfScn.blocks).foldlM (SymBlock.load system) dso := by
    intro sections
    induction sections with
    | nil => exact fun dso => rfl
    | cons scn sections inductionHypothesis =>
        intro dso
        rw [List.foldlM_cons, List.flatMap_cons, List.foldlM_append, dsoAddSection_eq]
        congr 1
        funext next
        exact inductionHypothesis next
  exact flattened elf.sections dso

/-- The symbols of a file are those of its blocks. -/
theorem Elf.symbols_eq (elf : Elf) : elf.symbols = elf.blocks.flatMap SymBlock.symbols := by
  rw [Elf.symbols, Elf.blocks, List.flatMap_assoc]
  congr 1
  funext scn
  unfold ElfScn.symbols ElfScn.blocks
  cases scn.header with
  | none => rfl
  | some header =>
      dsimp only
      split
      · rw [List.flatMap_map]
        rfl
      · rfl

/-! ## Where a load ends -/

/-- The blocks load without an error into the empty table of the dso. -/
structure BlocksLoad (system : System) (dso : Dso) (blocks : List SymBlock) : Prop where
  wellSized : ∀ block ∈ blocks, block.WellSized
  room : ∀ k < (blocks.flatMap SymBlock.symbols).length, dso.CanAdd system k

/-- The load of the file for the dso comes to a data block whose entries have no
size. -/
def Elf.DividesByZero (system : System) (dso : Dso) (elf : Elf) : Prop :=
  ∃ before block after, elf.blocks = before ++ block :: after ∧
    BlocksLoad system dso before ∧ block.symsize = 0

/-- The load of the file for the dso comes to a data block that is no sequence of
entries, whose size is not zero, or to a symbol that cannot be added to the
strings of the dso. -/
def Elf.FailsMidway (system : System) (dso : Dso) (elf : Elf) : Prop :=
  ∃ before block after, elf.blocks = before ++ block :: after ∧
    BlocksLoad system dso before ∧ block.symsize ≠ 0 ∧
      (block.data.dSize % block.symsize ≠ 0 ∨
        dso.hasBtf = true ∧ ∃ k < block.symbols.length, system.addSymFails dso.name
          ((before.flatMap SymBlock.symbols).length + k) = true)

/-- The load of the file for the dso, which has no strings, comes to a symbol. -/
def Elf.ReadsNull (system : System) (dso : Dso) (elf : Elf) : Prop :=
  ∃ before block after, elf.blocks = before ++ block :: after ∧
    BlocksLoad system dso before ∧ dso.hasBtf = false ∧ block.WellSized ∧ block.symbols ≠ []

/-- The loop over blocks that load adds their symbols to a dso without any, and
the loop over others ends with an error. -/
theorem foldlM_load_eq_ok_iff
    {system : System}
    {dso middle : Dso}
    {blocks : List SymBlock}
    (fresh : dso.Fresh) :
    blocks.foldlM (SymBlock.load system) dso = .ok middle ↔
      BlocksLoad system dso blocks ∧
        middle = dso.append (blocks.flatMap SymBlock.symbols) := by
  have adds := Adds.foldlM (fun block : SymBlock => adds_dsoAddData system block.symsize block.data)
    blocks
  have room := fresh.hasRoom system (blocks.flatMap SymBlock.symbols).length
  by_cases loads : BlocksLoad system dso blocks
  · have loop := adds.ok dso fresh.alive loads.wellSized (room.mpr loads.room)
    refine Iff.trans ?_ (and_iff_right loads).symm
    refine Iff.trans (Eq.congr_left loop) ?_
    rw [Except.ok.injEq]
    exact eq_comm
  · obtain ⟨failure, fails, -⟩ := adds.error dso fresh.alive
      fun both => loads ⟨both.1, room.mp both.2⟩
    refine iff_of_false (fun succeeds => ?_) fun both => loads both.1
    have both := fails.symm.trans succeeds
    cases both

/-- No entry divides. -/
theorem dsoAddEntry_ne_divideByZero
    (system : System)
    (data : ElfData)
    (dso : Dso)
    (i : Nat) :
    dsoAddEntry system data dso i ≠ .error (.fault .divideByZero) := by
  unfold dsoAddEntry dsoAddSym
  intro divides
  repeat' split at divides
  all_goals cases divides

/-- A block divides by zero exactly when its entries have no size. -/
theorem SymBlock.load_divides_iff
    (system : System)
    (dso : Dso)
    (block : SymBlock) :
    block.load system dso = .error (.fault .divideByZero) ↔ block.symsize = 0 := by
  unfold SymBlock.load dsoAddData
  by_cases zero : block.symsize = 0
  · exact iff_of_true (if_pos zero) zero
  · rw [if_neg zero]
    refine iff_of_false (fun divides => ?_) zero
    split at divides
    · cases divides
    · obtain ⟨_, i, _, next, -, -, entry⟩ := foldlM_eq_error_iff.mp divides
      exact dsoAddEntry_ne_divideByZero system block.data next i entry

/-- No entry takes the strings of a dso away. -/
theorem hasBtf_of_dsoAddEntry
    {system : System}
    {data : ElfData}
    {dso next : Dso}
    {i : Nat}
    (added : dsoAddEntry system data dso i = .ok next) :
    next.hasBtf = dso.hasBtf := by
  unfold dsoAddEntry dsoAddSym at added
  repeat' split at added
  all_goals cases added
  all_goals rfl

/-- An entry fails only where there are strings to add its name to. -/
theorem hasBtf_of_dsoAddEntry_failed
    {system : System}
    {data : ElfData}
    {dso failed : Dso}
    {i : Nat}
    (fails : dsoAddEntry system data dso i = .error (.failed failed)) :
    dso.hasBtf = true := by
  by_contra strings
  unfold dsoAddEntry dsoAddSym at fails
  rw [Bool.not_eq_true] at strings
  rw [strings] at fails
  repeat' split at fails
  all_goals grind

section Block

variable {system : System} {dso : Dso}

/-- A block of a dso without strings does not fail once its size is right. -/
theorem SymBlock.load_ne_failed
    {block : SymBlock}
    (wellSized : block.WellSized)
    (strings : dso.hasBtf = false)
    (failed : Dso) :
    block.load system dso ≠ .error (.failed failed) := by
  unfold SymBlock.load dsoAddData
  rw [if_neg wellSized.1, if_neg (not_not.mpr wellSized.2)]
  intro fails
  obtain ⟨before, i, after, next, -, reaches, entry⟩ := foldlM_eq_error_iff.mp fails
  have kept : next.hasBtf = false :=
    foldlM_invariant (fun dso : Dso => dso.hasBtf = false)
      (fun _ _ _ added none => (hasBtf_of_dsoAddEntry added).trans none) reaches strings
  rw [hasBtf_of_dsoAddEntry_failed entry] at kept
  cases kept

/-- A block reads a null pointer exactly when the dso has no strings, the size of
the block is right and there is a symbol in it. -/
theorem SymBlock.load_reads_iff
    (alive : dso.released = false)
    (block : SymBlock) :
    block.load system dso = .error (.fault .readNull) ↔
      dso.hasBtf = false ∧ block.WellSized ∧ block.symbols ≠ [] := by
  have adds := adds_dsoAddData system block.symsize block.data
  have divides := block.load_divides_iff system dso
  constructor
  · intro reads
    have unclean : ¬(block.WellSized ∧ dso.HasRoom system block.symbols.length) := by
      rintro ⟨wellSized, room⟩
      cases reads.symm.trans (adds.ok dso alive wellSized room)
    have wellSized : block.WellSized := by
      unfold SymBlock.load dsoAddData at reads
      split at reads
      · cases reads
      · next sized =>
          split at reads
          · cases reads
          · next whole => exact ⟨sized, not_not.mp whole⟩
    obtain ⟨failure, fails, kind⟩ := adds.error dso alive unclean
    obtain rfl := Except.error.inj (fails.symm.trans reads)
    refine ⟨?_, wellSized, fun empty => unclean ⟨wellSized, ?_⟩⟩
    · rcases kind with ⟨_, zero | ⟨strings, -⟩, same⟩ | ⟨_, failed⟩
      · rw [zero] at same
        cases same
      · exact strings
      · cases failed
    · rw [empty]
      exact fun k below => absurd below (Nat.not_lt_zero k)
  · rintro ⟨strings, wellSized, nonempty⟩
    have full : ¬dso.HasRoom system block.symbols.length := by
      intro room
      have first := (room 0 (List.length_pos_iff.mpr nonempty)).1
      rw [strings] at first
      cases first
    obtain ⟨failure, fails, kind⟩ := adds.error dso alive fun both => full both.2
    rcases kind with ⟨_, rfl | ⟨-, rfl⟩, rfl⟩ | ⟨taken, rfl⟩
    · exact absurd (divides.mp fails) wellSized.1
    · exact fails
    · exact absurd fails (load_ne_failed wellSized strings _)

/-- A block fails exactly when its entries have a size and it is no sequence of
these, or one of its symbols cannot be added to the strings. -/
theorem SymBlock.load_fails_iff
    (alive : dso.released = false)
    (block : SymBlock) :
    (∃ failed, block.load system dso = .error (.failed failed)) ↔
      block.symsize ≠ 0 ∧ (block.data.dSize % block.symsize ≠ 0 ∨
        dso.hasBtf = true ∧ ∃ k < block.symbols.length,
          system.addSymFails dso.name (dso.table.length + k) = true) := by
  have adds := adds_dsoAddData system block.symsize block.data
  constructor
  · rintro ⟨failed, fails⟩
    have sized : block.symsize ≠ 0 := by
      intro zero
      cases fails.symm.trans ((block.load_divides_iff system dso).mpr zero)
    refine ⟨sized, or_iff_not_imp_left.mpr fun whole => ?_⟩
    have wellSized : block.WellSized := ⟨sized, not_not.mp whole⟩
    have strings : dso.hasBtf = true := by
      by_contra none
      exact SymBlock.load_ne_failed wellSized (Bool.eq_false_of_not_eq_true none) failed fails
    refine ⟨strings, ?_⟩
    by_contra roomy
    have room : dso.HasRoom system block.symbols.length := fun k below =>
      ⟨strings, Bool.eq_false_of_not_eq_true fun full => roomy ⟨k, below, full⟩⟩
    cases fails.symm.trans (adds.ok dso alive wellSized room)
  · rintro ⟨sized, uneven | ⟨strings, k, below, full⟩⟩
    · exact ⟨dso, by rw [SymBlock.load, dsoAddData, if_neg sized, if_pos uneven]⟩
    · obtain ⟨failure, fails, kind⟩ := adds.error dso alive fun both => by
        rw [(both.2 k below).2] at full
        cases full
      rcases kind with ⟨_, rfl | ⟨none, -⟩, rfl⟩ | ⟨taken, rfl⟩
      · exact absurd ((block.load_divides_iff system dso).mp fails) sized
      · rw [strings] at none
        cases none
      · exact ⟨_, fails⟩

/-- Behind the symbols of other blocks it fails at those of its symbols that
cannot be added there. -/
theorem SymBlock.load_append_fails_iff
    (block : SymBlock)
    (fresh : dso.Fresh)
    (added : List Sym) :
    (∃ failed, block.load system (dso.append added) = .error (.failed failed)) ↔
      block.symsize ≠ 0 ∧ (block.data.dSize % block.symsize ≠ 0 ∨
        dso.hasBtf = true ∧ ∃ k < block.symbols.length,
          system.addSymFails dso.name (added.length + k) = true) := by
  rw [block.load_fails_iff (fresh.alive_append added), Dso.name_append, Dso.hasBtf_append,
    fresh.table_append]

end Block

/-! ## The load of a dso -/

section Load

variable {system : System} {dso : Dso} {elf : Elf}

/-- The loop over a file fails as the first of its blocks that does, after the
symbols of those before it. -/
theorem foldlM_dsoAddSection_eq_error_iff
    (fresh : dso.Fresh)
    {failure : Failure} :
    elf.sections.foldlM (dsoAddSection system) dso = .error failure ↔
      ∃ before block after, elf.blocks = before ++ block :: after ∧
        BlocksLoad system dso before ∧
          SymBlock.load system (dso.append (before.flatMap SymBlock.symbols)) block =
            .error failure := by
  rw [foldlM_dsoAddSection_eq, foldlM_eq_error_iff]
  constructor
  · rintro ⟨before, block, after, middle, split, reaches, fails⟩
    obtain ⟨loads, rfl⟩ := (foldlM_load_eq_ok_iff fresh).mp reaches
    exact ⟨before, block, after, split, loads, fails⟩
  · rintro ⟨before, block, after, split, loads, fails⟩
    exact ⟨before, block, after, _, split, (foldlM_load_eq_ok_iff fresh).mpr ⟨loads, rfl⟩, fails⟩

/-- The load stops with a fault exactly when its loop does. -/
theorem loadSymTableFromElf_eq_fault_iff
    (qsort : Qsort)
    (fresh : dso.Fresh)
    (fault : Fault) :
    loadSymTableFromElf system qsort (some elf) dso = .error (.fault fault) ↔
      elf.sections.foldlM (dsoAddSection system) dso = .error (.fault fault) := by
  cases result : elf.sections.foldlM (dsoAddSection system) dso with
  | ok collected =>
      rw [loadSymTableFromElf_of_ok qsort result]
      simp
  | error failure =>
      rcases loadSymTableFromElf_of_error qsort fresh result with
        ⟨other, -, rfl, stops⟩ | ⟨taken, rfl, fails⟩
      · rw [stops]
      · rw [fails]
        simp

/-- The load divides by zero exactly when it comes to a block whose entries have
no size. -/
theorem loadSymTableFromElf_divides_iff
    (qsort : Qsort)
    (fresh : dso.Fresh) :
    loadSymTableFromElf system qsort (some elf) dso = .error (.fault .divideByZero) ↔
      elf.DividesByZero system dso := by
  rw [loadSymTableFromElf_eq_fault_iff qsort fresh, foldlM_dsoAddSection_eq_error_iff fresh]
  simp only [SymBlock.load_divides_iff, Elf.DividesByZero]

/-- The load reads a null pointer exactly when it comes to a symbol of a dso
without strings. -/
theorem loadSymTableFromElf_reads_iff
    (qsort : Qsort)
    (fresh : dso.Fresh) :
    loadSymTableFromElf system qsort (some elf) dso = .error (.fault .readNull) ↔
      elf.ReadsNull system dso := by
  rw [loadSymTableFromElf_eq_fault_iff qsort fresh, foldlM_dsoAddSection_eq_error_iff fresh]
  simp only [SymBlock.load_reads_iff (fresh.alive_append _), Dso.hasBtf_append, Elf.ReadsNull]

/-- The load fails exactly when it comes to a block that is no sequence of
entries, or to a symbol that cannot be added. -/
theorem loadSymTableFromElf_fails_iff
    (qsort : Qsort)
    (fresh : dso.Fresh) :
    (∃ failed, loadSymTableFromElf system qsort (some elf) dso = .error (.failed failed)) ↔
      elf.FailsMidway system dso := by
  have loop : (∃ failed, elf.sections.foldlM (dsoAddSection system) dso =
      .error (.failed failed)) ↔ elf.FailsMidway system dso := by
    simp only [foldlM_dsoAddSection_eq_error_iff fresh]
    constructor
    · rintro ⟨failed, before, block, after, split, loads, fails⟩
      have ends := (block.load_append_fails_iff fresh _).mp ⟨failed, fails⟩
      exact ⟨before, block, after, split, loads, ends⟩
    · rintro ⟨before, block, after, split, loads, ends⟩
      obtain ⟨failed, fails⟩ := (block.load_append_fails_iff fresh _).mpr ends
      exact ⟨failed, before, block, after, split, loads, fails⟩
  rw [← loop]
  cases result : elf.sections.foldlM (dsoAddSection system) dso with
  | ok collected =>
      rw [loadSymTableFromElf_of_ok qsort result]
      simp
  | error failure =>
      rcases loadSymTableFromElf_of_error qsort fresh result with
        ⟨fault, -, rfl, stops⟩ | ⟨taken, rfl, fails⟩
      · rw [stops]
      · exact iff_of_true ⟨_, fails⟩ ⟨_, rfl⟩

/-- A load that fails has released the fields. -/
theorem released_of_loadSymTableFromElf
    (qsort : Qsort)
    (fresh : dso.Fresh)
    {failed : Dso}
    (fails : loadSymTableFromElf system qsort (some elf) dso = .error (.failed failed)) :
    failed.released = true := by
  have unclean : ¬elf.LoadsCleanly system dso := by
    intro clean
    rw [loadSymTableFromElf_clean qsort fresh clean] at fails
    cases fails
  rcases loadSymTableFromElf_unclean qsort fresh unclean with ⟨fault, -, stops⟩ | ⟨taken, frees⟩
  · rw [stops] at fails
    cases fails
  · rw [frees] at fails
    cases fails
    rfl

/-- A loop that ends well has collected the symbols of the file, in the order of
sections and entries. -/
theorem table_of_foldlM_eq_ok
    (fresh : dso.Fresh)
    {collected : Dso}
    (loop : elf.sections.foldlM (dsoAddSection system) dso = .ok collected) :
    collected.table = elf.symbols := by
  rw [foldlM_dsoAddSection_eq] at loop
  obtain ⟨-, rfl⟩ := (foldlM_load_eq_ok_iff fresh).mp loop
  rw [fresh.table_append, Elf.symbols_eq]

/-- The load divides by nothing that is zero, and ends with an error or with the
symbols of the file, which its loops collect in the order of sections and
entries before the table is sorted. -/
structure EndsWell
    (system : System)
    (qsort : Qsort)
    (elf : Elf)
    (dso : Dso) : Prop where
  divides : loadSymTableFromElf system qsort (some elf) dso ≠ .error (.fault .divideByZero)
  ends : (∃ failed, loadSymTableFromElf system qsort (some elf) dso = .error (.failed failed)) ∨
    ∃ collected, elf.sections.foldlM (dsoAddSection system) dso = .ok collected ∧
      collected.table = elf.symbols ∧
      loadSymTableFromElf system qsort (some elf) dso =
        .ok { collected with syms := collected.syms.map qsort.sort }

/-- A load ends well, for whatever sections, headers and data blocks the file
has, exactly when it does not come to a data block of a symbol table whose
entries have no size, nor to a symbol of a dso that has no strings. -/
theorem load_ends_well_iff
    (qsort : Qsort)
    (fresh : dso.Fresh) :
    EndsWell system qsort elf dso ↔
      ¬elf.DividesByZero system dso ∧ ¬elf.ReadsNull system dso := by
  have divides := @loadSymTableFromElf_divides_iff system dso elf qsort fresh
  have reads := @loadSymTableFromElf_reads_iff system dso elf qsort fresh
  constructor
  · intro well
    refine ⟨fun reaches => well.divides (divides.mpr reaches), fun reaches => ?_⟩
    have stops := reads.mpr reaches
    rcases well.ends with ⟨failed, fails⟩ | ⟨collected, -, -, ends⟩
    · cases stops.symm.trans fails
    · cases stops.symm.trans ends
  · rintro ⟨never, hasStrings⟩
    refine ⟨fun fault => never (divides.mp fault), ?_⟩
    cases loop : elf.sections.foldlM (dsoAddSection system) dso with
    | ok collected =>
        exact .inr ⟨collected, rfl, table_of_foldlM_eq_ok fresh loop,
          loadSymTableFromElf_of_ok qsort loop⟩
    | error failure =>
        rcases loadSymTableFromElf_of_error qsort fresh loop with
          ⟨_, rfl | ⟨-, rfl⟩, -, stops⟩ | ⟨taken, -, fails⟩
        · exact absurd (divides.mp stops) never
        · exact absurd (reads.mp stops) hasStrings
        · exact .inl ⟨_, fails⟩

end Load

/-! ## Files with one data block -/

/-- A file with one symbol table, of one data block from which no symbol can be
read. -/
def oneBlock (shEntsize dSize : Nat) : Elf where
  eType := some etExec
  hasShdrstrndx := true
  sections :=
    [{ header := some
        { name := some ".symtab".toList
          shType := shtSymtab
          shAddr := 0
          shOffset := 0
          shEntsize := shEntsize }
       data := [{ dSize := dSize, getsym := fun _ => none }] }]

/-- The load of a block of 48 bytes with entries of 24 bytes ends well, as it
comes to no entries without a size. -/
theorem load_ends_well_iff_even :
    EndsWell (oneFile ['a'] (oneBlock 24 48)) .insertion (oneBlock 24 48)
      (execDso ['a'] []) := by
  refine (load_ends_well_iff .insertion ⟨rfl, rfl⟩).mpr ⟨?_, ?_⟩
  · rintro ⟨before, block, after, split, -, zero⟩
    have member : block ∈ (oneBlock 24 48).blocks := by
      rw [split]
      exact List.mem_append_right _ List.mem_cons_self
    obtain rfl := List.mem_singleton.mp member
    cases zero
  · rintro ⟨before, block, after, -, -, strings, -⟩
    cases strings

/-- The load of a block with entries of no size divides by zero. -/
theorem zeroEntsize_divides :
    (execDso ['a'] []).Fresh ∧
      ¬EndsWell (oneFile ['a'] (oneBlock 0 24)) .insertion (oneBlock 0 24) (execDso ['a'] []) :=
  ⟨⟨rfl, rfl⟩, fun well => well.divides rfl⟩

end Symbols
end EbpfHub
