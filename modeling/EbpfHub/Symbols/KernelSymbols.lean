import EbpfHub.Foundations.Arena
import EbpfHub.Foundations.Bisect
import EbpfHub.Foundations.Run
import EbpfHub.Foundations.ScanLines
import EbpfHub.Foundations.Sorting
import EbpfHub.Symbols.LinearSearch

/-!
# The symbols of the kernel

The table of `trace_helpers.c` for `/proc/kallsyms`.  The names are strings in
an array that `realloc` may move while the table grows, so that a symbol first
holds the offset of its name; only the finished table holds pointers.
-/

namespace EbpfHub
namespace Symbols

open Foundations
open Foundations.Scanf (Item)

/-! ## The table -/

/-- `struct ksym`.  The name is an offset while the table is built, and then a
pointer. -/
structure Ksym where
  name : U64
  addr : U64
  deriving DecidableEq

/-- `struct ksyms`.  The lists are the parts of the arrays in use; their lengths
are `syms_sz` and `strs_sz`. -/
structure Ksyms where
  syms : List Ksym
  symsCap : Nat
  /-- The address of the array of names. -/
  strsAddr : U64
  strs : List Char
  strsCap : Nat
  deriving DecidableEq

/-- The table that `calloc` makes. -/
def Ksyms.start : Ksyms where
  syms := []
  symsCap := 0
  strsAddr := 0
  strs := []
  strsCap := 0

/-- What `realloc` answers when an array of the table grows, for the number of
symbols in the table and the capacity that is asked for. -/
structure Allocator where
  /-- The new address of the array of names, `none` when it cannot grow. -/
  growStrs : Nat → Nat → Option U64
  /-- The array of symbols can grow. -/
  growSyms : Nat → Nat → Bool

/-- How `ksyms__add_symbol` can fail. -/
inductive AddSymbolFailure
  /-- It returns -1 and leaves the table so. -/
  | noMemory (ksyms : Ksyms)
  /-- A capacity is too large for an `int`. -/
  | overflow

/-- The capacity that an array gets when it is full: a third more, and not less
than what is needed and 1024. -/
def grownCap (cap needed : Nat) : Nat :=
  let newCap := cap * 4 / 3
  let newCap := if newCap < needed then needed else newCap
  if newCap < 1024 then 1024 else newCap

namespace Ksyms

/-- The part of `ksyms__add_symbol` that makes room for a name. -/
def growStrs
    (allocator : Allocator)
    (ksyms : Ksyms)
    (nameLen : Nat) : Except AddSymbolFailure Ksyms :=
  if ksyms.strs.length + nameLen ≤ ksyms.strsCap then .ok ksyms
  else if !fitsInt (ksyms.strsCap * 4 : Nat) then .error .overflow
  else
    match allocator.growStrs ksyms.syms.length
        (grownCap ksyms.strsCap (ksyms.strs.length + nameLen)) with
    | none => .error (.noMemory ksyms)
    | some strsAddr =>
        if fitsInt (grownCap ksyms.strsCap (ksyms.strs.length + nameLen) : Nat) then
          .ok { ksyms with
            strsAddr := strsAddr
            strsCap := grownCap ksyms.strsCap (ksyms.strs.length + nameLen) }
        else .error .overflow

/-- The part that makes room for a symbol. -/
def growSyms (allocator : Allocator) (ksyms : Ksyms) : Except AddSymbolFailure Ksyms :=
  if ksyms.syms.length + 1 ≤ ksyms.symsCap then .ok ksyms
  else if !fitsInt (ksyms.symsCap * 4 : Nat) then .error .overflow
  else if allocator.growSyms ksyms.syms.length (grownCap ksyms.symsCap 0) then
    .ok { ksyms with symsCap := grownCap ksyms.symsCap 0 }
  else .error (.noMemory ksyms)

/-- `ksyms__add_symbol`. -/
def addSymbol
    (allocator : Allocator)
    (ksyms : Ksyms)
    (name : Name)
    (addr : U64) : Except AddSymbolFailure Ksyms := do
  let nameLen := name.length + 1
  let ksyms ← ksyms.growStrs allocator nameLen
  let ksyms ← ksyms.growSyms allocator
  return { ksyms with
    syms := ksyms.syms ++ [⟨BitVec.ofNat 64 ksyms.strs.length, addr⟩]
    strs := Arena.push nul ksyms.strs name }

/-! ## The names survive the growth -/

/-- The characters that the names take with their ends. -/
def nameBytes (entries : List (Name × U64)) : Nat :=
  (entries.map fun entry => entry.1.length + 1).sum

/-- The symbols of the table, by the offsets of their names, are the entries. -/
def Reads (ksyms : Ksyms) (entries : List (Name × U64)) : Prop :=
  List.Forall₂ (fun sym entry =>
    Arena.read nul ksyms.strs sym.name.toNat = some entry.1 ∧ sym.addr = entry.2)
    ksyms.syms entries

/-- A table that is built from entries: it reads as they do, its arrays have
room for what is in use, and they are at most a third larger. -/
structure Holds (ksyms : Ksyms) (entries : List (Name × U64)) : Prop where
  reads : ksyms.Reads entries
  size : ksyms.strs.length = nameBytes entries
  strsFit : ksyms.strs.length ≤ ksyms.strsCap
  strsInt : fitsInt ksyms.strsCap = true
  strsCap_le : ksyms.strsCap ≤ max 1024 (ksyms.strs.length * 4 / 3)
  symsFit : ksyms.syms.length ≤ ksyms.symsCap
  symsCap_le : ksyms.symsCap ≤ max 1024 (ksyms.syms.length * 4 / 3)

theorem fitsInt_natCast (value : Nat) : fitsInt (value : Nat) = true ↔ value < 2 ^ 31 := by
  unfold fitsInt
  rw [Bool.and_eq_true, decide_eq_true_iff, decide_eq_true_iff]
  omega

theorem Holds.start : Ksyms.start.Holds [] where
  reads := .nil
  size := rfl
  strsFit := Nat.le_refl 0
  strsInt := by decide
  strsCap_le := Nat.zero_le _
  symsFit := Nat.le_refl 0
  symsCap_le := Nat.zero_le _

/-- The entries and the symbols are as many. -/
theorem Holds.length_syms {ksyms : Ksyms} {entries : List (Name × U64)}
    (holds : ksyms.Holds entries) :
    ksyms.syms.length = entries.length :=
  holds.reads.length_eq

/-- Every name takes at least its end. -/
theorem length_le_nameBytes (entries : List (Name × U64)) :
    entries.length ≤ nameBytes entries := by
  induction entries with
  | nil => exact Nat.le_refl 0
  | cons entry entries inductionHypothesis =>
      unfold nameBytes at inductionHypothesis ⊢
      rw [List.map_cons, List.sum_cons, List.length_cons]
      omega

theorem grownCap_eq (cap needed : Nat) :
    grownCap cap needed = max (max (cap * 4 / 3) needed) 1024 := by
  unfold grownCap
  dsimp only
  split
  · split <;> omega
  · split <;> omega

/-- What making room for a name does when it succeeds. -/
theorem growStrs_ok
    {allocator : Allocator}
    {ksyms next : Ksyms}
    {nameLen : Nat}
    (grown : ksyms.growStrs allocator nameLen = .ok next)
    (bound : ksyms.strsCap ≤ max 1024 (ksyms.strs.length * 4 / 3))
    (int : fitsInt ksyms.strsCap = true) :
    ∃ strsAddr strsCap, next = { ksyms with strsAddr := strsAddr, strsCap := strsCap } ∧
      ksyms.strs.length + nameLen ≤ strsCap ∧ fitsInt strsCap = true ∧
      strsCap ≤ max 1024 ((ksyms.strs.length + nameLen) * 4 / 3) := by
  unfold growStrs at grown
  split at grown
  · next room =>
    obtain rfl := Except.ok.inj grown
    exact ⟨ksyms.strsAddr, ksyms.strsCap, rfl, room, int, by omega⟩
  · next full =>
    split at grown
    · cases grown
    · split at grown
      · cases grown
      · next strsAddr answered =>
        split at grown
        · next fits =>
          obtain rfl := Except.ok.inj grown
          refine ⟨strsAddr, _, rfl, ?_, fits, ?_⟩
          · rw [grownCap_eq]
            omega
          · rw [grownCap_eq]
            omega
        · cases grown

/-- What making room for a symbol does when it succeeds. -/
theorem growSyms_ok
    {allocator : Allocator}
    {ksyms next : Ksyms}
    (grown : ksyms.growSyms allocator = .ok next)
    (fit : ksyms.syms.length ≤ ksyms.symsCap)
    (bound : ksyms.symsCap ≤ max 1024 (ksyms.syms.length * 4 / 3)) :
    ∃ symsCap, next = { ksyms with symsCap := symsCap } ∧
      ksyms.syms.length + 1 ≤ symsCap ∧
      symsCap ≤ max 1024 ((ksyms.syms.length + 1) * 4 / 3) := by
  unfold growSyms at grown
  split at grown
  · next room =>
    obtain rfl := Except.ok.inj grown
    exact ⟨ksyms.symsCap, rfl, room, by omega⟩
  · next full =>
    split at grown
    · cases grown
    · split at grown
      · obtain rfl := Except.ok.inj grown
        refine ⟨_, rfl, ?_, ?_⟩
        · rw [grownCap_eq]
          omega
        · rw [grownCap_eq]
          omega
      · cases grown

/-- A symbol that is added comes after the ones before, whose names it leaves. -/
theorem Holds.addSymbol
    {allocator : Allocator}
    {ksyms next : Ksyms}
    {entries : List (Name × U64)}
    (holds : ksyms.Holds entries)
    {name : Name}
    (clean : nul ∉ name)
    {addr : U64}
    (added : ksyms.addSymbol allocator name addr = .ok next) :
    next.Holds (entries ++ [(name, addr)]) := by
  unfold Ksyms.addSymbol at added
  dsimp only at added
  cases first : ksyms.growStrs allocator (name.length + 1) with
  | error failure =>
      rw [first] at added
      cases added
  | ok middle =>
      rw [first] at added
      obtain ⟨strsAddr, strsCap, rfl, strsRoom, strsInt, strsBound⟩ :=
        growStrs_ok first holds.strsCap_le holds.strsInt
      dsimp only [bind, Except.bind] at added
      split at added
      · cases added
      · next last second =>
        obtain ⟨symsCap, rfl, symsRoom, symsBound⟩ :=
          growSyms_ok second holds.symsFit holds.symsCap_le
        obtain rfl := Except.ok.inj added
        have inside : ksyms.strs.length < 2 ^ 64 := by
          rw [fitsInt_natCast] at strsInt
          omega
        have offset : (BitVec.ofNat 64 ksyms.strs.length).toNat = ksyms.strs.length :=
          Nat.mod_eq_of_lt inside
        have kept : List.Forall₂ (fun sym (entry : Name × U64) =>
            Arena.read nul (Arena.push nul ksyms.strs name) sym.name.toNat = some entry.1 ∧
              sym.addr = entry.2) ksyms.syms entries :=
          holds.reads.imp fun sym entry both => ⟨Arena.read_append both.1 _, both.2⟩
        have bytes : nameBytes (entries ++ [(name, addr)]) =
            nameBytes entries + (name.length + 1) := by
          simp [nameBytes]
        refine ⟨?_, ?_, ?_, strsInt, ?_, ?_, ?_⟩
        · refine List.rel_append kept (.cons ⟨?_, rfl⟩ .nil)
          dsimp only
          rw [offset]
          exact Arena.read_push ksyms.strs clean
        · dsimp only
          rw [Arena.length_push, bytes, holds.size]
        · dsimp only
          rw [Arena.length_push]
          exact strsRoom
        · dsimp only
          rw [Arena.length_push]
          exact strsBound
        · dsimp only
          rw [List.length_append, List.length_singleton]
          exact symsRoom
        · dsimp only
          rw [List.length_append, List.length_singleton]
          exact symsBound

/-- The allocator never fails. -/
structure Grants (allocator : Allocator) : Prop where
  strs : ∀ count cap, allocator.growStrs count cap ≠ none
  syms : ∀ count cap, allocator.growSyms count cap = true

/-- How making room for a name fails. -/
theorem growStrs_error
    {allocator : Allocator}
    {ksyms : Ksyms}
    {nameLen : Nat}
    {failure : AddSymbolFailure}
    (failed : ksyms.growStrs allocator nameLen = .error failure) :
    failure = .noMemory ksyms ∧ ¬Grants allocator ∨
      failure = .overflow ∧ ksyms.strsCap < ksyms.strs.length + nameLen ∧
        (2 ^ 29 ≤ ksyms.strsCap ∨ 2 ^ 31 ≤ ksyms.strs.length + nameLen) := by
  unfold growStrs at failed
  split at failed
  · cases failed
  · next full =>
    have larger : ksyms.strsCap < ksyms.strs.length + nameLen := Nat.lt_of_not_le full
    split at failed
    · next large =>
      rw [Bool.not_eq_true', ← Bool.not_eq_true, fitsInt_natCast] at large
      exact .inr ⟨(Except.error.inj failed).symm, larger, .inl (by omega)⟩
    · next small =>
      split at failed
      · next denied =>
        exact .inl ⟨(Except.error.inj failed).symm, fun grants => grants.strs _ _ denied⟩
      · split at failed
        · cases failed
        · next large =>
          rw [Bool.not_eq_true', Bool.not_eq_false, fitsInt_natCast] at small
          rw [fitsInt_natCast, grownCap_eq] at large
          exact .inr ⟨(Except.error.inj failed).symm, larger, .inr (by omega)⟩

/-- How making room for a symbol fails. -/
theorem growSyms_error
    {allocator : Allocator}
    {ksyms : Ksyms}
    {failure : AddSymbolFailure}
    (failed : ksyms.growSyms allocator = .error failure) :
    failure = .noMemory ksyms ∧ ¬Grants allocator ∨
      failure = .overflow ∧ ksyms.symsCap < ksyms.syms.length + 1 ∧ 2 ^ 29 ≤ ksyms.symsCap := by
  unfold growSyms at failed
  split at failed
  · cases failed
  · next full =>
    split at failed
    · next large =>
      rw [Bool.not_eq_true', ← Bool.not_eq_true, fitsInt_natCast] at large
      exact .inr ⟨(Except.error.inj failed).symm, Nat.lt_of_not_le full, by omega⟩
    · split at failed
      · cases failed
      · next denied =>
        exact .inl ⟨(Except.error.inj failed).symm, fun grants => denied (grants.syms _ _)⟩

/-- The number of characters of names from which a capacity can be too large for
an `int`: four thirds of it are 2^29. -/
def nameBytesLimit : Nat := 3 * 2 ^ 27

/-- A symbol that cannot be added leaves the symbols and the names, unless the
names have become too long in all. -/
theorem Holds.addSymbol_error
    {allocator : Allocator}
    {ksyms : Ksyms}
    {entries : List (Name × U64)}
    (holds : ksyms.Holds entries)
    {name : Name}
    {addr : U64}
    {failure : AddSymbolFailure}
    (failed : ksyms.addSymbol allocator name addr = .error failure) :
    (∃ left, failure = .noMemory left ∧ left.Reads entries) ∧ ¬Grants allocator ∨
      failure = .overflow ∧ nameBytesLimit ≤ nameBytes (entries ++ [(name, addr)]) := by
  have bytes : nameBytes (entries ++ [(name, addr)]) =
      nameBytes entries + (name.length + 1) := by
    simp [nameBytes]
  have size := holds.size
  have strsBound := holds.strsCap_le
  have symsBound := holds.symsCap_le
  have count := holds.length_syms
  have fewer := length_le_nameBytes entries
  unfold nameBytesLimit
  rw [bytes]
  unfold Ksyms.addSymbol at failed
  dsimp only at failed
  cases first : ksyms.growStrs allocator (name.length + 1) with
  | error failure' =>
      rw [first] at failed
      obtain rfl := Except.error.inj failed
      rcases growStrs_error first with ⟨rfl, denied⟩ | ⟨rfl, larger, large⟩
      · exact .inl ⟨⟨ksyms, rfl, holds.reads⟩, denied⟩
      · exact .inr ⟨rfl, by omega⟩
  | ok middle =>
      rw [first] at failed
      obtain ⟨strsAddr, strsCap, rfl, -, -, -⟩ :=
        growStrs_ok first holds.strsCap_le holds.strsInt
      dsimp only [bind, Except.bind] at failed
      split at failed
      · next failure' second =>
        obtain rfl := Except.error.inj failed
        rcases growSyms_error second with ⟨rfl, denied⟩ | ⟨rfl, larger, large⟩
        · exact .inl ⟨⟨_, rfl, holds.reads⟩, denied⟩
        · dsimp only at larger large
          exact .inr ⟨rfl, by omega⟩
      · cases failed

/-- The calls of `ksyms__add_symbol` for a list of entries. -/
def addSymbols
    (allocator : Allocator)
    (ksyms : Ksyms)
    (entries : List (Name × U64)) : Except AddSymbolFailure Ksyms :=
  entries.foldlM (fun ksyms entry => ksyms.addSymbol allocator entry.1 entry.2) ksyms

/-- A run of calls that succeed. -/
theorem Holds.addSymbols
    {allocator : Allocator}
    {ksyms final : Ksyms}
    {entries more : List (Name × U64)}
    (holds : ksyms.Holds entries)
    (clean : ∀ entry ∈ more, nul ∉ entry.1)
    (added : ksyms.addSymbols allocator more = .ok final) :
    final.Holds (entries ++ more) := by
  induction more generalizing ksyms entries with
  | nil =>
      obtain rfl := Except.ok.inj added
      rwa [List.append_nil]
  | cons entry more inductionHypothesis =>
      obtain ⟨first, rest⟩ := List.forall_mem_cons.mp clean
      unfold Ksyms.addSymbols at added
      rw [List.foldlM_cons] at added
      cases once : ksyms.addSymbol allocator entry.1 entry.2 with
      | error failure =>
          rw [once] at added
          cases added
      | ok next =>
          rw [once] at added
          have grown := inductionHypothesis (holds.addSymbol first once) rest added
          rwa [List.append_assoc] at grown

/-- Whatever the calls of `realloc` answer and wherever they move the array of
names, the symbols that have been added keep their names and addresses in their
order: all of them when no call of `ksyms__add_symbol` fails, those before the
call that fails when there is no memory.  No capacity is too large for an `int`
while the names take fewer than 3 * 2^27 characters. -/
theorem names_survive_growth
    (allocator : Allocator)
    (entries : List (Name × U64))
    (clean : ∀ entry ∈ entries, nul ∉ entry.1) :
    (∀ ksyms, Ksyms.start.addSymbols allocator entries = .ok ksyms → ksyms.Reads entries) ∧
      (∀ left, Ksyms.start.addSymbols allocator entries = .error (.noMemory left) →
        ∃ added entry lost, entries = added ++ entry :: lost ∧ left.Reads added) ∧
      (Ksyms.start.addSymbols allocator entries = .error .overflow →
        nameBytesLimit ≤ nameBytes entries) := by
  refine ⟨?_, ?_, ?_⟩
  · intro ksyms added
    exact (Holds.start.addSymbols clean added).reads
  · intro left failed
    obtain ⟨added, entry, lost, middle, rfl, reached, stopped⟩ := foldlM_eq_error_iff.mp failed
    have holds :=
      Holds.start.addSymbols (fun entry member => clean entry (by simp [member])) reached
    refine ⟨added, entry, lost, rfl, ?_⟩
    rcases holds.addSymbol_error stopped with ⟨⟨left', same, reads⟩, -⟩ | ⟨other, -⟩
    · cases same
      exact reads
    · cases other
  · intro failed
    obtain ⟨added, entry, lost, middle, rfl, reached, stopped⟩ := foldlM_eq_error_iff.mp failed
    have holds :=
      Holds.start.addSymbols (fun entry member => clean entry (by simp [member])) reached
    rcases holds.addSymbol_error stopped with ⟨⟨left', same, reads⟩, -⟩ | ⟨-, large⟩
    · cases same
    · refine Nat.le_trans large ?_
      simp only [nameBytes, List.map_append, List.sum_append, List.map_cons, List.sum_cons,
        List.map_nil, List.sum_nil, List.nil_append]
      omega

end Ksyms

end Symbols
end EbpfHub
