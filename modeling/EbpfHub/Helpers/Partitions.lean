import EbpfHub.Foundations.Chunks
import EbpfHub.Foundations.Decimal
import EbpfHub.Foundations.ScanLines
import EbpfHub.Symbols.Kallsyms

/-!
# The partitions of the system

`partitions__load` of `trace_helpers.c` reads `/proc/partitions`.  A line that
does not begin with a blank is taken for the heading, and the kernel writes no
blank before a major number of four digits.
-/

namespace EbpfHub
namespace Helpers

open Foundations
open Foundations.Scanf (Directive Item isSpace)
open Symbols (Name strcmp Fault nul)

/-! ## The functions -/

/-- `struct partition`. -/
structure Partition where
  /-- `none` for the null pointer. -/
  name : Option Name
  dev : BitVec 32
  deriving DecidableEq

/-- `MKDEV`. -/
def mkdev (major minor : BitVec 32) : BitVec 32 := major <<< 20 ||| minor

/-- `DISK_NAME_LEN`. -/
abbrev diskNameLen : Nat := 32

/-- Which allocations succeed: that of the table, its enlargements by their sizes,
and the copies of names by the index of the partition. -/
structure Memory where
  calloc : Bool
  realloc : Nat → Bool
  strdup : Nat → Bool

/-- A line of `/proc/partitions`, with numbers of the ranges that the kernel has. -/
structure PartitionLine where
  major : Nat
  minor : Nat
  blocks : Nat
  name : Name
  majorFits : major < 2 ^ 12
  minorFits : minor < 2 ^ 20
  blocksFits : blocks < 2 ^ 64
  named : name ≠ []
  visible : ∀ c ∈ name, isSpace c = false
  clean : nul ∉ name
  brief : name.length < diskNameLen

namespace PartitionLine

/-- The blanks before a number. -/
def padding (width number : Nat) : List Char :=
  List.replicate (width - (Nat.toDigits 10 number).length) ' '

/-- `%*llu`, for a natural number. -/
def column (width number : Nat) : List Char := padding width number ++ Nat.toDigits 10 number

/-- `"%4d  %7d %10llu %pg"`, the characters that the kernel writes before the end of
a line. -/
def chars (line : PartitionLine) : List Char :=
  column 4 line.major ++ ("  ".toList ++ column 7 line.minor ++
    (' ' :: column 10 line.blocks ++ ' ' :: line.name))

/-- The text of lines. -/
def text (lines : List PartitionLine) : List Char :=
  lines.flatMap fun line => line.chars ++ ['\n']

/-- The device of a line. -/
def dev (line : PartitionLine) : BitVec 32 :=
  mkdev (BitVec.ofNat 32 line.major) (BitVec.ofNat 32 line.minor)

/-- The partition of a line, at the index. -/
def partition (memory : Memory) (line : PartitionLine) (index : Nat) : Partition :=
  ⟨if memory.strdup index then some line.name else none, line.dev⟩

/-- The lines that begin with a blank. -/
def listed (lines : List PartitionLine) : List PartitionLine :=
  lines.filter fun line => line.major < 1000

/-- The partitions of these lines, from the index on. -/
def tableFrom (memory : Memory) (start : Nat) (lines : List PartitionLine) : List Partition :=
  ((listed lines).zipIdx start).map fun entry => entry.1.partition memory entry.2

/-- What is loaded of the lines. -/
def table (memory : Memory) (lines : List PartitionLine) : List Partition :=
  tableFrom memory 0 lines

end PartitionLine

/-! ## The loop -/

/-- So many enlargements of the table succeed. -/
def Memory.grants (memory : Memory) (size count : Nat) : Bool :=
  (List.range count).all fun n => memory.realloc (size + n + 1)

open PartitionLine

end Helpers
end EbpfHub
