import EbpfHub.Foundations.Run
import EbpfHub.Memleak.Maps

/-!
# The uprobe and uretprobe programs

Every program of `memleak.bpf.c` that runs on a user-space function, under the
name it has there, and the machine that runs the program of each event.
-/

namespace EbpfHub
namespace Memleak

open Foundations

section Programs

variable (rodata : Rodata) (ctx : Context)

def mallocEnter (size : U64) : Maps → Maps := genAllocEnter rodata ctx size

def mallocExit : Maps → Maps := genAllocExit rodata ctx

def freeEnter (address : U64) : Maps → Maps := genFreeEnter rodata address

def callocEnter (nmemb size : U64) : Maps → Maps := genAllocEnter rodata ctx (nmemb * size)

def callocExit : Maps → Maps := genAllocExit rodata ctx

def reallocEnter (ptr size : U64) (maps : Maps) : Maps :=
  genAllocEnter rodata ctx size (genFreeEnter rodata ptr maps)

def reallocExit : Maps → Maps := genAllocExit rodata ctx

def mmapEnter (_address size : U64) : Maps → Maps := genAllocEnter rodata ctx size

def mmapExit : Maps → Maps := genAllocExit rodata ctx

def munmapEnter (address : U64) : Maps → Maps := genFreeEnter rodata address

def mremapEnter (oldAddress _oldSize newSize : U64) (_flags : BitVec 32) (maps : Maps) : Maps :=
  genAllocEnter rodata ctx newSize (genFreeEnter rodata oldAddress maps)

def mremapExit : Maps → Maps := genAllocExit rodata ctx

def posixMemalignEnter (memptr _alignment size : U64) (maps : Maps) : Maps :=
  genAllocEnter rodata ctx size (maps.updateMemptrs ctx memptr)

def posixMemalignExit (maps : Maps) : Maps :=
  match maps.memptrs.lookup ctx.tid with
  | none => maps
  | some memptr64 =>
      let maps := { maps with memptrs := maps.memptrs.erase ctx.tid }
      match ctx.readUser memptr64 with
      | none => maps
      | some addr64 => genAllocExit2 rodata ctx addr64 maps

def alignedAllocEnter (_alignment size : U64) : Maps → Maps := genAllocEnter rodata ctx size

def alignedAllocExit : Maps → Maps := genAllocExit rodata ctx

def vallocEnter (size : U64) : Maps → Maps := genAllocEnter rodata ctx size

def vallocExit : Maps → Maps := genAllocExit rodata ctx

def memalignEnter (_alignment size : U64) : Maps → Maps := genAllocEnter rodata ctx size

def memalignExit : Maps → Maps := genAllocExit rodata ctx

def pvallocEnter (size : U64) : Maps → Maps := genAllocEnter rodata ctx size

def pvallocExit : Maps → Maps := genAllocExit rodata ctx

def operatorNewEnter (size : U64) : Maps → Maps := genAllocEnter rodata ctx size

def operatorNewExit : Maps → Maps := genAllocExit rodata ctx

def operatorNewArrayEnter (size : U64) : Maps → Maps := genAllocEnter rodata ctx size

def operatorNewArrayExit : Maps → Maps := genAllocExit rodata ctx

def operatorDeleteEnter (address : U64) : Maps → Maps := genFreeEnter rodata address

/-- The size of a sized delete is ignored. -/
def operatorDeleteSizedEnter (address _size : U64) : Maps → Maps := genFreeEnter rodata address

def operatorDeleteArrayEnter (address : U64) : Maps → Maps := genFreeEnter rodata address

def operatorDeleteArraySizedEnter (address _size : U64) : Maps → Maps :=
  genFreeEnter rodata address

end Programs

/-! ## Calls, events and runs -/

/-- The functions that return a block and are probed on entry and exit. -/
inductive AllocFn
  | malloc | calloc | realloc | mmap | mremap | posixMemalign | alignedAlloc
  | valloc | memalign | pvalloc | operatorNew | operatorNewArray
  deriving DecidableEq

/-- A call of such a function with the arguments its entry probe sees. -/
inductive Call
  | malloc (size : U64)
  | calloc (nmemb size : U64)
  | realloc (ptr size : U64)
  | mmap (address size : U64)
  | mremap (oldAddress oldSize newSize : U64) (flags : BitVec 32)
  | posixMemalign (memptr alignment size : U64)
  | alignedAlloc (alignment size : U64)
  | valloc (size : U64)
  | memalign (alignment size : U64)
  | pvalloc (size : U64)
  | operatorNew (size : U64)
  | operatorNewArray (size : U64)
  deriving DecidableEq

/-- A call of a function that releases a block and is probed on entry. -/
inductive Release
  | free (address : U64)
  | munmap (address : U64)
  | operatorDelete (address : U64)
  | operatorDeleteSized (address size : U64)
  | operatorDeleteArray (address : U64)
  | operatorDeleteArraySized (address size : U64)
  deriving DecidableEq

/-- The probe that an event hits. -/
inductive Uprobe
  | enter (call : Call)
  | exit (fn : AllocFn)
  | release (call : Release)
  deriving DecidableEq

/-- One hit of a probe. -/
structure Event where
  ctx : Context
  probe : Uprobe

/-- The thread of an event. -/
def Event.tid (event : Event) : U32 := event.ctx.tid

/-- Run the program attached to the entry of the called function. -/
def Call.enter (rodata : Rodata) (ctx : Context) : Call → Maps → Maps
  | .malloc size => mallocEnter rodata ctx size
  | .calloc nmemb size => callocEnter rodata ctx nmemb size
  | .realloc ptr size => reallocEnter rodata ctx ptr size
  | .mmap address size => mmapEnter rodata ctx address size
  | .mremap oldAddress oldSize newSize flags =>
      mremapEnter rodata ctx oldAddress oldSize newSize flags
  | .posixMemalign memptr alignment size =>
      posixMemalignEnter rodata ctx memptr alignment size
  | .alignedAlloc alignment size => alignedAllocEnter rodata ctx alignment size
  | .valloc size => vallocEnter rodata ctx size
  | .memalign alignment size => memalignEnter rodata ctx alignment size
  | .pvalloc size => pvallocEnter rodata ctx size
  | .operatorNew size => operatorNewEnter rodata ctx size
  | .operatorNewArray size => operatorNewArrayEnter rodata ctx size

/-- Run the program attached to the return of the function. -/
def AllocFn.exit (rodata : Rodata) (ctx : Context) : AllocFn → Maps → Maps
  | .malloc => mallocExit rodata ctx
  | .calloc => callocExit rodata ctx
  | .realloc => reallocExit rodata ctx
  | .mmap => mmapExit rodata ctx
  | .mremap => mremapExit rodata ctx
  | .posixMemalign => posixMemalignExit rodata ctx
  | .alignedAlloc => alignedAllocExit rodata ctx
  | .valloc => vallocExit rodata ctx
  | .memalign => memalignExit rodata ctx
  | .pvalloc => pvallocExit rodata ctx
  | .operatorNew => operatorNewExit rodata ctx
  | .operatorNewArray => operatorNewArrayExit rodata ctx

/-- Run the program attached to the entry of the releasing function. -/
def Release.enter (rodata : Rodata) : Release → Maps → Maps
  | .free address => freeEnter rodata address
  | .munmap address => munmapEnter rodata address
  | .operatorDelete address => operatorDeleteEnter rodata address
  | .operatorDeleteSized address size => operatorDeleteSizedEnter rodata address size
  | .operatorDeleteArray address => operatorDeleteArrayEnter rodata address
  | .operatorDeleteArraySized address size =>
      operatorDeleteArraySizedEnter rodata address size

/-- Run the program of an event. -/
def step (rodata : Rodata) (maps : Maps) (event : Event) : Maps :=
  match event.probe with
  | .enter call => call.enter rodata event.ctx maps
  | .exit fn => fn.exit rodata event.ctx maps
  | .release call => call.enter rodata maps

/-- Run the programs of a list of events from the empty maps. -/
def runEvents (rodata : Rodata) (events : List Event) : Maps :=
  run (step rodata) Maps.empty events

/-! ## What the programs of one kind have in common -/

/-- The function that a call calls. -/
def Call.fn : Call → AllocFn
  | .malloc _ => .malloc
  | .calloc _ _ => .calloc
  | .realloc _ _ => .realloc
  | .mmap _ _ => .mmap
  | .mremap _ _ _ _ => .mremap
  | .posixMemalign _ _ _ => .posixMemalign
  | .alignedAlloc _ _ => .alignedAlloc
  | .valloc _ => .valloc
  | .memalign _ _ => .memalign
  | .pvalloc _ => .pvalloc
  | .operatorNew _ => .operatorNew
  | .operatorNewArray _ => .operatorNewArray

/-- The size that the entry program passes to `gen_alloc_enter`. -/
def Call.size : Call → U64
  | .malloc size => size
  | .calloc nmemb size => nmemb * size
  | .realloc _ size => size
  | .mmap _ size => size
  | .mremap _ _ newSize _ => newSize
  | .posixMemalign _ _ size => size
  | .alignedAlloc _ size => size
  | .valloc size => size
  | .memalign _ size => size
  | .pvalloc size => size
  | .operatorNew size => size
  | .operatorNewArray size => size

/-- The block that a resizing call gives up on entry. -/
def Call.released : Call → Option U64
  | .realloc ptr _ => some ptr
  | .mremap oldAddress _ _ _ => some oldAddress
  | _ => none

/-- Where `posix_memalign` stores its result. -/
def Call.memptr : Call → Option U64
  | .posixMemalign memptr _ _ => some memptr
  | _ => none

/-- The block that a releasing call gives up. -/
def Release.address : Release → U64
  | .free address => address
  | .munmap address => address
  | .operatorDelete address => address
  | .operatorDeleteSized address _ => address
  | .operatorDeleteArray address => address
  | .operatorDeleteArraySized address _ => address

theorem Call.memptr_isSome_iff (call : Call) :
    call.memptr.isSome ↔ call.fn = .posixMemalign := by
  cases call <;> simp [memptr, fn]

/-- Every entry program is `gen_alloc_enter`, after the release of the block of
a resizing call or the recording of the result pointer of `posix_memalign`. -/
theorem Call.enter_eq
    (rodata : Rodata)
    (ctx : Context)
    (call : Call)
    (maps : Maps) :
    call.enter rodata ctx maps =
      match call.released, call.memptr with
      | some ptr, _ => genAllocEnter rodata ctx call.size (genFreeEnter rodata ptr maps)
      | none, some memptr =>
          genAllocEnter rodata ctx call.size (maps.updateMemptrs ctx memptr)
      | none, none => genAllocEnter rodata ctx call.size maps := by
  cases call <;> rfl

/-- Every exit program but that of `posix_memalign` is `gen_alloc_exit`. -/
theorem AllocFn.exit_eq
    (rodata : Rodata)
    (ctx : Context)
    (fn : AllocFn)
    (maps : Maps) :
    fn.exit rodata ctx maps =
      if fn = .posixMemalign then posixMemalignExit rodata ctx maps
      else genAllocExit2 rodata ctx ctx.rc maps := by
  cases fn <;> rfl

/-- Every releasing program is `gen_free_enter`. -/
theorem Release.enter_eq
    (rodata : Rodata)
    (call : Release)
    (maps : Maps) :
    call.enter rodata maps = genFreeEnter rodata call.address maps := by
  cases call <;> rfl

end Memleak
end EbpfHub
