import EbpfHub.Foundations.Scanf
import EbpfHub.Symbols.SymTable

/-!
# The mappings of a process

`trace_helpers.c` reads the executable mappings of a process from its maps
file, groups them by the object that is mapped, and looks for the object and
the symbol of an address in them.
-/

namespace EbpfHub
namespace Symbols

open Foundations

/-- `struct map`. -/
structure Map where
  startAddr : U64
  endAddr : U64
  fileOff : U64
  devMajor : U64
  devMinor : U64
  inode : U64
  deriving DecidableEq

/-- The range of a mapping. -/
def Map.range (map : Map) : LoadRange := ⟨map.startAddr, map.endAddr, map.fileOff⟩

/-! ## Grouping by object -/

/-- A dso that has been cleared and given its name and its strings, as far as
`strdup` and `btf__new_empty` succeed. -/
def Dso.new (system : System) (name : Name) : Dso where
  name := name
  named := !system.strdupFails name
  hasBtf := !system.btfFails name
  ranges := []
  shAddr := 0
  shOffset := 0
  type := .exec
  syms := none
  released := false

/-- The part of `syms__add_dso` that follows the search for the dso. -/
def addRange
    (system : System)
    (map : Map)
    (name : Name)
    (dso : Dso) : Except LoadError Dso :=
  if system.addRangeFails name dso.ranges.length then .error .failed
  else
    let dso := { dso with ranges := dso.ranges ++ [map.range] }
    let type := getElfType system name
    if type = some etExec then .ok { dso with type := .exec }
    else if type = some etDyn then
      match getElfTextScnInfo system name with
      | none => .error .failed
      | some (shAddr, shOffset) =>
          .ok { dso with type := .dyn, shAddr := shAddr, shOffset := shOffset }
    else if isPerfMap name then .ok { dso with type := .perfMap }
    else if isVdso name then .ok { dso with type := .vdso }
    else .ok { dso with type := .unknown }

/-- `syms__add_dso`: the first dso of the name gets the range, or a new one at
the end.  The results of `strdup` and `btf__new_empty` are not tested, and the
comparison with the next name reads a name that is null. -/
def addDso (system : System) (map : Map) (name : Name) : Syms → Except LoadError Syms
  | [] => (addRange system map name (Dso.new system name)).map fun dso => [dso]
  | dso :: rest =>
      if !dso.named then .error (.fault .readNull)
      else if strcmp dso.name name = 0 then
        (addRange system map name dso).map fun dso => dso :: rest
      else (addDso system map name rest).map fun rest => dso :: rest

/-! ## The maps file -/

/-- `"%llx-%llx %4s %llx %llx:%llx %llu%[^\\n]"`. -/
def mapsFormat : List Scanf.Directive :=
  [.integer 16, .literal '-', .integer 16, .space, .word 4, .space, .integer 16, .space,
    .integer 16, .literal ':', .integer 16, .space, .integer 10, .line]

/-- `PATH_MAX`. -/
def pathMax : Nat := 4096

/-- `name` after the loop that skips blanks: the rest of the string that begins
with these characters of the buffer. -/
def nameIn (buf : List Char) : Name := (buf.takeWhile (· ≠ nul)).dropWhile Scanf.isSpace

/-- What `fscanf` makes of the input at a pass of the loop. -/
inductive Scanned
  /-- `EOF` at the end of the file. -/
  | done
  /-- All eight items, and the rest of the input. -/
  | line (map : Map) (perm buf : List Char) (rest : List Char)
  /-- The rest of a line and the zero behind it are longer than `buf`, as the
  format bounds no length there. -/
  | overflow
  /-- Fewer items. -/
  | failed

/-- The call of `fscanf` in `syms__load_file`. -/
def scanLine (input : List Char) : Scanned :=
  match Scanf.scan mapsFormat input with
  | ([], .error .eof) => .done
  | ([.integer startAddr, .integer endAddr, .text perm, .integer fileOff, .integer devMajor,
      .integer devMinor, .integer inode, .text buf], .ok rest) =>
      if buf.length < pathMax then
        .line ⟨startAddr, endAddr, fileOff, devMajor, devMinor, inode⟩ perm buf rest
      else .overflow
  | _ => .failed

/-- The loop of `syms__load_file`, which makes one pass more than there are
lines.  A `perm` that is shorter than three characters leaves the one that is
tested undefined; it counts as different. -/
def loadLines (system : System) : Nat → List Char → Syms → Except LoadError Syms
  | 0, _, _ => .error .failed
  | passes + 1, input, syms =>
      match scanLine input with
      | .done => .ok syms
      | .overflow => .error (.fault .outOfBounds)
      | .failed => .error .failed
      | .line map perm buf rest =>
          if perm[2]? ≠ some 'x' then loadLines system passes rest syms
          else if !isFileBacked (nameIn buf) then loadLines system passes rest syms
          else
            match addDso system map (nameIn buf) syms with
            | .error error => .error error
            | .ok syms => loadLines system passes rest syms

/-- `syms__load_file`, for the content of the file, `none` when it cannot be
opened. -/
def loadFile (system : System) (content : Option (List Char)) : Except LoadError Syms :=
  match content with
  | none => .error .failed
  | some content =>
      if system.callocFails then .error .failed
      else loadLines system (content.length + 1) content []

/-! ## Lookups -/

/-- The address is strictly between the ends of the range, as
`syms__find_dso` tests it. -/
def LoadRange.inside (range : LoadRange) (addr : U64) : Bool :=
  !(addr ≤ range.start || addr ≥ range.stop)

/-- The offset that `syms__find_dso` computes for an address in a range. -/
def Dso.offsetOf (dso : Dso) (range : LoadRange) (addr : U64) : U64 :=
  if dso.type = .dyn ∨ dso.type = .vdso then
    addr - range.start + range.fileOff + (dso.shAddr - dso.shOffset)
  else addr

/-- `syms__find_dso`, with the index of the dso. -/
def findDso (addr : U64) : Nat → Syms → Except Fault (Option (Nat × Dso × U64))
  | _, [] => .ok none
  | i, dso :: rest =>
      if dso.released ∧ dso.ranges ≠ [] then .error .readReleased
      else
        match dso.ranges.find? (·.inside addr) with
        | some range => .ok (some (i, dso, dso.offsetOf range addr))
        | none => findDso addr (i + 1) rest

/-- `struct sym_info`.  A string is `none` when the pointer is null or leads to
memory that has been released. -/
structure SymInfo where
  dsoName : Option Name
  dsoOffset : U64
  symName : Option Name
  symOffset : U64
  deriving DecidableEq

/-- `syms__map_addr_dso`: the objects after the lookup, and what it stores when
it succeeds. -/
def mapAddrDso
    (system : System)
    (qsort : Qsort)
    (syms : Syms)
    (addr : U64) : Except Fault (Syms × Option SymInfo) :=
  match findDso addr 0 syms with
  | .error fault => .error fault
  | .ok none => .ok (syms, none)
  | .ok (some (i, dso, offset)) =>
      match findSym system qsort dso offset with
      | .error fault => .error fault
      | .ok (dso, sym) =>
          .ok (syms.set i dso, some
            { dsoName := if dso.released then none else dso.namePointer
              dsoOffset := offset
              symName := sym.map Sym.name
              symOffset := (sym.map Sym.offset).getD 0 })

end Symbols
end EbpfHub
