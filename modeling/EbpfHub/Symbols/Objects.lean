import Mathlib.Data.BitVec

/-!
# The objects of a process and their symbols

The structures of `trace_helpers.c`, and what its functions find outside: the
content that libelf hands out for a file and the allocations that fail for want
of memory.
-/

namespace EbpfHub
namespace Symbols

/-- A `uint64_t` of the source. -/
abbrev U64 := BitVec 64

/-- A C string: its bytes before the final zero, as characters with the same
codes. -/
abbrev Name := List Char

/-- The character that ends a C string. -/
def nul : Char := '\x00'

/-- `strcmp`. -/
def strcmp : Name → Name → Int
  | [], [] => 0
  | [], _ :: _ => -1
  | _ :: _, [] => 1
  | x :: xs, y :: ys =>
      if x = y then strcmp xs ys
      else if x < y then -1
      else 1

/-- `STARTS_WITH`. -/
def startsWith (mapname pref : Name) : Bool := pref.isPrefixOf mapname

/-- `is_file_backed`. -/
def isFileBacked (mapname : Name) : Bool :=
  mapname ≠ [] && !(
    startsWith mapname "//anon".toList ||
    startsWith mapname "/dev/zero".toList ||
    startsWith mapname "/anon_hugepage".toList ||
    startsWith mapname "[stack".toList ||
    startsWith mapname "/SYSV".toList ||
    startsWith mapname "[heap]".toList ||
    startsWith mapname "[uprobes]".toList ||
    startsWith mapname "[vsyscall]".toList)

/-- `is_perf_map`. -/
def isPerfMap (_path : Name) : Bool := false

/-- `is_vdso`. -/
def isVdso (path : Name) : Bool := path = "[vdso]".toList

/-- `is_uprobes`. -/
def isUprobes (path : Name) : Bool := path = "[uprobes]".toList

/-! ## What libelf hands out -/

/-- An entry of a symbol table, with the name that `elf_strptr` finds. -/
structure GElfSym where
  name : Option Name
  stValue : U64
  stSize : U64

/-- A data block of a section. -/
structure ElfData where
  dSize : Nat
  /-- `gelf_getsym`, `none` when it fails. -/
  getsym : Nat → Option GElfSym

/-- A section header, with the name that `elf_strptr` finds.  `sh_link` only
serves to find the names of the symbols. -/
structure GElfShdr where
  name : Option Name
  shType : BitVec 32
  shAddr : U64
  shOffset : U64
  shEntsize : Nat

/-- A section: `gelf_getshdr`, `none` when it fails, and its data blocks. -/
structure ElfScn where
  header : Option GElfShdr
  data : List ElfData

/-- An ELF file. -/
structure Elf where
  /-- `gelf_getehdr`, `none` when it fails, and `e_type`. -/
  eType : Option (BitVec 16)
  /-- `elf_getshdrstrndx` succeeds. -/
  hasShdrstrndx : Bool
  sections : List ElfScn

/-- `ET_EXEC`. -/
def etExec : BitVec 16 := 2

/-- `ET_DYN`. -/
def etDyn : BitVec 16 := 3

/-- `SHT_SYMTAB`. -/
def shtSymtab : BitVec 32 := 2

/-- `SHT_DYNSYM`. -/
def shtDynsym : BitVec 32 := 11

/-- What the functions find outside. -/
structure System where
  /-- `open_elf`, `none` when it fails. -/
  openElf : Name → Option Elf
  /-- The image that `create_tmp_vdso_image` makes, `none` when it cannot be
  made or opened. -/
  vdsoImage : Option Elf
  /-- `btf__add_str` or `realloc` fails when a symbol is added at the index to
  the table of the dso of the name. -/
  addSymFails : Name → Nat → Bool
  /-- `calloc` fails in `syms__load_file`. -/
  callocFails : Bool := false
  /-- `realloc` fails in `syms__add_dso` for the range at the index of the dso of
  the name, or before its first range for the dso itself. -/
  addRangeFails : Name → Nat → Bool := fun _ _ => false
  /-- `strdup` fails in `syms__add_dso`. -/
  strdupFails : Name → Bool := fun _ => false
  /-- `btf__new_empty` fails for the dso of the name. -/
  btfFails : Name → Bool := fun _ => false

/-- `get_elf_type`, `none` for -1. -/
def getElfType (system : System) (path : Name) : Option (BitVec 16) :=
  if isVdso path then none
  else if isUprobes path then none
  else
    match system.openElf path with
    | none => none
    | some e => e.eType

/-- The loop over the sections of `get_elf_text_scn_info`. -/
def findTextScn : List ElfScn → Option (U64 × U64)
  | [] => none
  | scn :: rest =>
      match scn.header with
      | none => findTextScn rest
      | some header =>
          if header.name = some ".text".toList then some (header.shAddr, header.shOffset)
          else findTextScn rest

/-- `get_elf_text_scn_info`, `none` for an error. -/
def getElfTextScnInfo (system : System) (path : Name) : Option (U64 × U64) :=
  match system.openElf path with
  | none => none
  | some e =>
      if e.hasShdrstrndx then findTextScn e.sections
      else none

/-! ## The objects -/

/-- `struct load_range`. -/
structure LoadRange where
  start : U64
  stop : U64
  fileOff : U64
  deriving DecidableEq

/-- `enum elf_type`. -/
inductive ElfType
  | exec
  | dyn
  | perfMap
  | vdso
  | unknown
  deriving DecidableEq

/-- `struct sym`. -/
structure Sym where
  name : Name
  start : U64
  size : U64
  offset : U64
  deriving DecidableEq

/-- `struct dso`.  The strings of `btf` are the names in `syms`. -/
structure Dso where
  /-- The name that the dso was made for. -/
  name : Name
  /-- The pointer to the name is not null. -/
  named : Bool := true
  /-- `btf` is not null. -/
  hasBtf : Bool := true
  ranges : List LoadRange
  shAddr : U64
  shOffset : U64
  type : ElfType
  /-- The table, `none` for the null pointer. -/
  syms : Option (List Sym)
  /-- The fields that are pointers have been released. -/
  released : Bool
  deriving DecidableEq

/-- The string that the pointer of the dso leads to, `none` for the null
pointer. -/
def Dso.namePointer (dso : Dso) : Option Name := if dso.named then some dso.name else none

/-- `struct syms`. -/
abbrev Syms := List Dso

/-- What the language leaves undefined. -/
inductive Fault
  /-- A division or remainder by zero. -/
  | divideByZero
  /-- A read through a pointer to released memory. -/
  | readReleased
  /-- A read through a null pointer. -/
  | readNull
  /-- A release of released memory. -/
  | releaseTwice
  /-- An access outside an array. -/
  | outOfBounds
  deriving DecidableEq

/-- How a function that updates a dso can fail. -/
inductive Failure
  /-- It does not return. -/
  | fault (fault : Fault)
  /-- It returns an error and leaves the dso so. -/
  | failed (dso : Dso)

/-- How the load of a maps file can end without objects. -/
inductive LoadError
  /-- It does not return. -/
  | fault (fault : Fault)
  /-- It returns `NULL`. -/
  | failed
  deriving DecidableEq

end Symbols
end EbpfHub
