import EbpfHub.Memleak.Census

/-!
# The test program

`leak_test.c` calls `malloc` once in every iteration and never frees the block.
The report shows one row for it, with all blocks that it got.
-/

namespace EbpfHub
namespace Memleak

open Foundations

/-- `ALLOC_SIZE`. -/
def allocSize : Nat := 1024

/-- What the programs attached to `malloc` find at the entry and at the exit of
a call. -/
structure MallocCall where
  enter : Context
  exit : Context

/-- The pointer that `malloc` returns. -/
def MallocCall.ptr (call : MallocCall) : U64 := call.exit.rc

/-- The blocks that the calls return. -/
def blocksOf (calls : List MallocCall) : List U64 :=
  (calls.map MallocCall.ptr).filter fun address => Recordable address

theorem blocksOf_cons (call : MallocCall) (calls : List MallocCall) :
    blocksOf (call :: calls) = blocksOf [call] ++ blocksOf calls := by
  unfold blocksOf
  rw [← List.singleton_append, List.map_append, List.filter_append]

/-- What the program has got from calls at a place: the heap owns their blocks
besides those of another, and the blocks come from the stack of the place. -/
structure Leaks
    (stackId : BitVec 32)
    (calls : List MallocCall)
    (heap final : Heap)
    (before after : Sites) : Prop where
  owned : ∀ address, final.owned address =
    if address ∈ blocksOf calls then some allocSize else heap.owned address
  site : ∀ address, after.site address =
    if address ∈ blocksOf calls then stackId else before.site address

theorem Leaks.cons
    {stackId : BitVec 32}
    {call : MallocCall}
    {calls : List MallocCall}
    {heap middle final : Heap}
    {before between after : Sites}
    (first : Leaks stackId [call] heap middle before between)
    (rest : Leaks stackId calls middle final between after) :
    Leaks stackId (call :: calls) heap final before after where
  owned := by
    intro address
    rw [rest.owned, first.owned, blocksOf_cons call calls]
    by_cases later : address ∈ blocksOf calls
    · rw [if_pos later, if_pos (List.mem_append_right _ later)]
    · simp only [List.mem_append, later, or_false, if_false]
  site := by
    intro address
    rw [rest.site, first.site, blocksOf_cons call calls]
    by_cases later : address ∈ blocksOf calls
    · rw [if_pos later, if_pos (List.mem_append_right _ later)]
    · simp only [List.mem_append, later, or_false, if_false]

section OneCall

variable {tid : U32} {stackId : BitVec 32} {call : MallocCall} {heap : Heap}

end OneCall

end Memleak
end EbpfHub
