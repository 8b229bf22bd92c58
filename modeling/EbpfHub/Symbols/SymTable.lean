import EbpfHub.Foundations.Bisect
import EbpfHub.Symbols.Objects
import Mathlib.Data.List.Sort
import Mathlib.Data.Prod.Lex

/-!
# The symbol table of an object

`trace_helpers.c` loads the table of a dso when a symbol is first looked up in
it, sorts it, and looks for the symbol of an offset by binary search.
-/

namespace EbpfHub
namespace Symbols

open Foundations

/-! ## The order of the table -/

/-- `sym_cmp`. -/
def symCmp (s1 s2 : Sym) : Int :=
  if s1.start = s2.start then strcmp s1.name s2.name
  else if s1.start < s2.start then -1
  else 1

/-- `qsort` with `sym_cmp`: it permutes the table, puts no symbol before one
that compares smaller, and promises no order among equal ones. -/
structure Qsort where
  sort : List Sym → List Sym
  perm : ∀ syms, (sort syms).Perm syms
  sorted : ∀ syms, (sort syms).Pairwise fun s1 s2 => symCmp s1 s2 ≤ 0

/-! ## The load -/

/-- `dso__free_fields`. -/
def Dso.freeFields (dso : Dso) : Except Fault Dso :=
  if dso.released then .error .releaseTwice
  else .ok { dso with released := true }

/-- The table, which is empty when there is none. -/
def Dso.table (dso : Dso) : List Sym := dso.syms.getD []

/-- `dso__add_sym`.  `btf__add_str` reads what `btf` points to. -/
def dsoAddSym
    (system : System)
    (dso : Dso)
    (name : Name)
    (start size : U64) : Except Failure Dso :=
  if dso.released then .error (.fault .readReleased)
  else if !dso.hasBtf then .error (.fault .readNull)
  else if system.addSymFails dso.name dso.table.length then .error (.failed dso)
  else .ok { dso with syms := some (dso.table ++ [⟨name, start, size, 0⟩]) }

/-- One entry of the loop of `dso__add_syms`. -/
def dsoAddEntry
    (system : System)
    (data : ElfData)
    (dso : Dso)
    (i : Nat) : Except Failure Dso :=
  match data.getsym i with
  | none => .ok dso
  | some sym =>
      match sym.name with
      | none => .ok dso
      | some name =>
          if name = [] then .ok dso
          else if sym.stValue = 0 then .ok dso
          else dsoAddSym system dso name sym.stValue sym.stSize

/-- One data block of the loop of `dso__add_syms`. -/
def dsoAddData
    (system : System)
    (symsize : Nat)
    (dso : Dso)
    (data : ElfData) : Except Failure Dso :=
  if symsize = 0 then .error (.fault .divideByZero)
  else if data.dSize % symsize ≠ 0 then .error (.failed dso)
  else (List.range (data.dSize / symsize)).foldlM (dsoAddEntry system data) dso

/-- `dso__add_syms`. -/
def dsoAddSyms
    (system : System)
    (dso : Dso)
    (scn : ElfScn)
    (symsize : Nat) : Except Failure Dso :=
  scn.data.foldlM (dsoAddData system symsize) dso

/-- The header is that of a symbol table. -/
def GElfShdr.isSymTable (header : GElfShdr) : Bool :=
  header.shType = shtSymtab || header.shType = shtDynsym

/-- One section of the loop of `dso__load_sym_table_from_elf`. -/
def dsoAddSection (system : System) (dso : Dso) (scn : ElfScn) : Except Failure Dso :=
  match scn.header with
  | none => .ok dso
  | some header =>
      if header.isSymTable then dsoAddSyms system dso scn header.shEntsize
      else .ok dso

/-- `dso__load_sym_table_from_elf`, for what opening the file gives. -/
def loadSymTableFromElf
    (system : System)
    (qsort : Qsort)
    (elf : Option Elf)
    (dso : Dso) : Except Failure Dso :=
  match elf with
  | none => .error (.failed dso)
  | some elf =>
      match elf.sections.foldlM (dsoAddSection system) dso with
      | .ok dso => .ok { dso with syms := dso.syms.map qsort.sort }
      | .error (.fault fault) => .error (.fault fault)
      | .error (.failed dso) =>
          match dso.freeFields with
          | .ok dso => .error (.failed dso)
          | .error fault => .error (.fault fault)

/-- `dso__load_sym_table_from_perf_map`. -/
def loadSymTableFromPerfMap (dso : Dso) : Except Failure Dso := .error (.failed dso)

/-- `dso__load_sym_table`.  No file can be opened through a null pointer. -/
def loadSymTable (system : System) (qsort : Qsort) (dso : Dso) : Except Failure Dso :=
  match dso.type with
  | .unknown => .error (.failed dso)
  | .perfMap => loadSymTableFromPerfMap dso
  | .exec | .dyn =>
      if dso.released then .error (.fault .readReleased)
      else loadSymTableFromElf system qsort (dso.namePointer.bind system.openElf) dso
  | .vdso => loadSymTableFromElf system qsort system.vdsoImage dso

/-! ## The search -/

/-- The range of the symbol, as the search tests it, contains the offset. -/
def Sym.contains (sym : Sym) (offset : U64) : Bool :=
  sym.start ≤ offset && offset < sym.start + sym.size

/-- The search of `dso__find_sym` in a table that has been loaded: the dso with
the offset of the symbol set, and the symbol. -/
def searchSyms (dso : Dso) (offset : U64) : Except Fault (Dso × Option Sym) :=
  if dso.released ∧ dso.table ≠ [] then .error .readReleased
  else
    match bisectList (fun sym : Sym => sym.start ≤ offset) dso.table with
    | none => .error .outOfBounds
    | some (start, stop) =>
        if start = stop then
          match entryAt dso.table start with
          | none => .error .outOfBounds
          | some sym =>
              if sym.contains offset then
                let found := { sym with offset := offset - sym.start }
                .ok ({ dso with syms := some (dso.table.set start.toNat found) }, some found)
              else .ok (dso, none)
        else .ok (dso, none)

/-- `dso__find_sym`. -/
def findSym
    (system : System)
    (qsort : Qsort)
    (dso : Dso)
    (offset : U64) : Except Fault (Dso × Option Sym) :=
  match dso.syms with
  | some _ => searchSyms dso offset
  | none =>
      match loadSymTable system qsort dso with
      | .ok dso => searchSyms dso offset
      | .error (.failed dso) => .ok (dso, none)
      | .error (.fault fault) => .error fault

end Symbols
end EbpfHub
