import EbpfHub.Symbols.Grouping
import EbpfHub.Symbols.KernelSymbols

/-!
# Loading the symbols of the kernel

`ksyms__load` reads `/proc/kallsyms` to its end or gives up; `ksyms__map_addr`
and `ksyms__get_symbol` look a symbol up in the sorted table.  What they find is
stated in terms of the lines of the file.
-/

namespace EbpfHub
namespace Symbols

open Foundations
open Foundations.Scanf (Item Directive eachRecord records isSpace)

/-! ## The finished table -/

namespace Ksyms

/-- The pointers take the place of the offsets. -/
def relocate (ksyms : Ksyms) : Ksyms :=
  { ksyms with
    syms := ksyms.syms.map fun sym => { sym with name := sym.name + ksyms.strsAddr } }

/-- The string that the pointer of a symbol points to, `none` outside the array
of names. -/
def nameOf (ksyms : Ksyms) (sym : Ksym) : Option Name :=
  Arena.read nul ksyms.strs (sym.name - ksyms.strsAddr).toNat

/-- A symbol with its name. -/
def entryOf (ksyms : Ksyms) (sym : Ksym) : Name × U64 :=
  ((ksyms.nameOf sym).getD [], sym.addr)

/-- `ksym_cmp`. -/
def ksymCmp (ksyms : Ksyms) (s1 s2 : Ksym) : Int :=
  if s1.addr = s2.addr then strcmp (ksyms.entryOf s1).1 (ksyms.entryOf s2).1
  else if s1.addr < s2.addr then -1
  else 1

end Ksyms

/-! ## The load -/

/-- How `ksyms__load` can fail to return. -/
inductive KsymsFault
  /-- A name does not fit into `sym_name`. -/
  | nameTooLong
  /-- A capacity is too large for an `int`. -/
  | overflow
  deriving DecidableEq

/-- The size of `sym_name`. -/
def symNameSize : Nat := 256

/-- `"%lx %c %s"`, the part of the format before the rest of the line.  No word
is longer than the file. -/
def kallsymsFormat (length : Nat) : List Directive :=
  [.integer 16, .space, .word 1, .space, .word length]

/-- The body of the loop of `ksyms__load` for the items of a line. -/
def addRecord
    (allocator : Allocator)
    (ksyms : Ksyms)
    (items : List Item) : Except (Except KsymsFault (Option Ksyms)) Ksyms :=
  match items with
  | [.integer symAddr, .text _, .text symName] =>
      if symName.length ≥ symNameSize then .error (.error .nameTooLong)
      else
        match ksyms.addSymbol allocator (symName.takeWhile (· ≠ nul)) symAddr with
        | .ok ksyms => .ok ksyms
        | .error (.noMemory _) => .error (.ok none)
        | .error .overflow => .error (.error .overflow)
  | _ => .error (.ok none)

/-- `ksyms__load`, for the content of the file, `none` when it cannot be opened,
and whether `calloc` succeeds; `none` for `NULL`. -/
def ksymsLoad
    (allocator : Allocator)
    (sorter : Sorter Ksym)
    (calloc : Bool)
    (content : Option (List Char)) : Except KsymsFault (Option Ksyms) :=
  match content with
  | none => .ok none
  | some content =>
      if calloc then
        match eachRecord (kallsymsFormat content.length) (addRecord allocator)
            (fun _ => .error (.ok none)) (content.length + 1) content Ksyms.start with
        | none => .ok none
        | some (.error result) => result
        | some (.ok ksyms) =>
            .ok (some { ksyms.relocate with
              syms := sorter.sort ksyms.relocate.ksymCmp ksyms.relocate.syms })
      else .ok none

/-! ## The lookups -/

/-- `ksyms__map_addr`. -/
def ksymsMapAddr (ksyms : Ksyms) (addr : U64) : Except Fault (Option Ksym) :=
  match machineBisect fitsInt (readBelow (fun sym : Ksym => sym.addr ≤ addr) ksyms.syms)
      ksyms.syms.length 0 (ksyms.syms.length - 1) with
  | none => .error .outOfBounds
  | some (start, stop) =>
      if start = stop then
        match entryAt ksyms.syms start with
        | none => .error .outOfBounds
        | some sym => if sym.addr ≤ addr then .ok (some sym) else .ok none
      else .ok none

/-- `ksyms__get_symbol`. -/
def ksymsGetSymbol (ksyms : Ksyms) (name : Name) : Option Ksym :=
  ksyms.syms.find? fun sym => strcmp (ksyms.entryOf sym).1 name = 0

/-! ## The file as a list of entries -/

/-- The entry of a record whose name fits into `sym_name`. -/
def entryOfItems : List Item → Option (Name × U64)
  | [.integer symAddr, .text _, .text symName] =>
      if symName.length < symNameSize then some (symName.takeWhile (· ≠ nul), symAddr) else none
  | _ => none

/-- The entries of a file that is well formed to its end. -/
def kallsymsEntries (content : List Char) : Option (List (Name × U64)) :=
  match records (kallsymsFormat content.length) (content.length + 1) content with
  | some (found, true) => found.mapM entryOfItems
  | _ => none

/-- The table serves the entries: it holds them in the order of `ksym_cmp`, and
every pointer points to a name. -/
structure Ksyms.Serves (ksyms : Ksyms) (entries : List (Name × U64)) : Prop where
  valid : ∀ sym ∈ ksyms.syms, ksyms.nameOf sym ≠ none
  perm : (ksyms.syms.map ksyms.entryOf).Perm entries
  sorted : ksyms.syms.Pairwise fun s1 s2 => ksyms.ksymCmp s1 s2 ≤ 0
  few : ksyms.syms.length < 2 ^ 31

/-- Two symbols compare as two symbols of an object with these names do. -/
theorem Ksyms.ksymCmp_eq (ksyms : Ksyms) (s1 s2 : Ksym) :
    ksyms.ksymCmp s1 s2 =
      symCmp ⟨(ksyms.entryOf s1).1, s1.addr, 0, 0⟩ ⟨(ksyms.entryOf s2).1, s2.addr, 0, 0⟩ := rfl

theorem Ksyms.comparison (ksyms : Ksyms) : Comparison ksyms.ksymCmp where
  total := by
    intro s1 s2
    rw [ksyms.ksymCmp_eq, ksyms.ksymCmp_eq]
    exact symCmp_total _ _
  trans := by
    intro s1 s2 s3 front back
    rw [ksyms.ksymCmp_eq] at front back ⊢
    exact symCmp_trans front back

/-- A symbol that reads has a name. -/
theorem Ksyms.Reads.exists_name
    {ksyms : Ksyms}
    {entries : List (Name × U64)}
    (reads : ksyms.Reads entries)
    {sym : Ksym}
    (member : sym ∈ ksyms.syms) :
    ∃ name, Arena.read nul ksyms.strs sym.name.toNat = some name := by
  obtain ⟨index, inside, rfl⟩ := List.mem_iff_getElem.mp member
  have paired := List.forall₂_iff_get.mp reads
  have within : index < entries.length := by rwa [← paired.1]
  exact ⟨_, (paired.2 index inside within).1⟩

/-- The finished table serves the entries that it was built from. -/
theorem Ksyms.Holds.serves
    {ksyms : Ksyms}
    {entries : List (Name × U64)}
    (holds : ksyms.Holds entries)
    (sorter : Sorter Ksym) :
    Ksyms.Serves { ksyms.relocate with
      syms := sorter.sort ksyms.relocate.ksymCmp ksyms.relocate.syms } entries := by
  have permuted := sorter.perm ksyms.relocate.ksymCmp ksyms.relocate.syms
  have nameOf : ∀ sym : Ksym,
      ksyms.relocate.nameOf { sym with name := sym.name + ksyms.strsAddr } =
        Arena.read nul ksyms.strs sym.name.toNat := by
    intro sym
    unfold Ksyms.nameOf Ksyms.relocate
    dsimp only
    rw [add_sub_cancel_right]
  have relocated : ksyms.relocate.syms =
      ksyms.syms.map fun sym => { sym with name := sym.name + ksyms.strsAddr } := rfl
  have same : ksyms.relocate.syms.map ksyms.relocate.entryOf = entries := by
    rw [relocated, List.map_map, ← List.forall₂_eq_eq_eq, List.forall₂_map_left_iff]
    refine holds.reads.imp fun sym entry both => ?_
    rw [Function.comp_apply, Ksyms.entryOf, nameOf, both.1]
    exact Prod.ext rfl both.2
  refine ⟨?_, ?_, ?_, ?_⟩
  · intro sym member
    have inTable := permuted.mem_iff.mp member
    rw [relocated] at inTable
    obtain ⟨original, inside, rfl⟩ := List.mem_map.mp inTable
    obtain ⟨name, found⟩ := holds.reads.exists_name inside
    have read := (nameOf original).trans found
    exact ne_of_eq_of_ne read (Option.some_ne_none name)
  · have sameEntries : (ksyms.relocate.syms.map ksyms.relocate.entryOf).Perm entries :=
      List.Perm.of_eq same
    exact (permuted.map ksyms.relocate.entryOf).trans sameEntries
  · exact sorter.sorted _ _ ksyms.relocate.comparison
  · have count : (sorter.sort ksyms.relocate.ksymCmp ksyms.relocate.syms).length =
        ksyms.syms.length := by
      rw [permuted.length_eq, relocated, List.length_map]
    have int := (Ksyms.fitsInt_natCast _).mp holds.strsInt
    have fewer := Ksyms.length_le_nameBytes entries
    rw [count, holds.length_syms]
    have size := holds.size
    have fit := holds.strsFit
    omega

/-! ## All or nothing -/

/-- A name that a record gives holds no end of a string. -/
theorem clean_of_entryOfItems
    {items : List Item}
    {entry : Name × U64}
    (found : entryOfItems items = some entry) :
    nul ∉ entry.1 := by
  unfold entryOfItems at found
  split at found
  · split at found
    · obtain rfl := Option.some.inj found
      intro member
      have kept := List.mem_takeWhile_imp member
      exact of_decide_eq_true kept rfl
    · cases found
  · cases found

/-- The body adds the entry of the record. -/
theorem addRecord_of_entry
    (allocator : Allocator)
    (ksyms : Ksyms)
    {items : List Item}
    {entry : Name × U64}
    (found : entryOfItems items = some entry) :
    addRecord allocator ksyms items =
      match ksyms.addSymbol allocator entry.1 entry.2 with
      | .ok ksyms => .ok ksyms
      | .error (.noMemory _) => .error (.ok none)
      | .error .overflow => .error (.error .overflow) := by
  unfold entryOfItems at found
  split at found
  · split at found
    · next short =>
      obtain rfl := Option.some.inj found
      exact if_neg (Nat.not_le_of_lt short)
    · cases found
  · cases found

/-- The body gets past a record only by adding its entry. -/
theorem of_addRecord
    {allocator : Allocator}
    {ksyms next : Ksyms}
    {items : List Item}
    (added : addRecord allocator ksyms items = .ok next) :
    ∃ entry, entryOfItems items = some entry ∧
      ksyms.addSymbol allocator entry.1 entry.2 = .ok next := by
  cases found : entryOfItems items with
  | none =>
      unfold addRecord at added
      unfold entryOfItems at found
      split at added
      · split at added
        · cases added
        · next symAddr symType symName long =>
          dsimp only at found
          rw [if_pos (Nat.lt_of_not_le long)] at found
          cases found
      · cases added
  | some entry =>
      rw [addRecord_of_entry allocator ksyms found] at added
      refine ⟨entry, rfl, ?_⟩
      split at added
      · next next' once =>
        obtain rfl := Except.ok.inj added
        exact once
      · cases added
      · cases added

/-- A record that ends the load leaves no table. -/
theorem not_table_of_addRecord
    {allocator : Allocator}
    {ksyms : Ksyms}
    {items : List Item}
    {result : Except KsymsFault (Option Ksyms)}
    (ended : addRecord allocator ksyms items = .error result)
    (table : Ksyms) :
    result ≠ .ok (some table) := by
  unfold addRecord at ended
  split at ended
  · split at ended
    · cases ended
      exact fun same => by cases same
    · split at ended
      · cases ended
      · cases ended
        exact fun same => by cases same
      · cases ended
        exact fun same => by cases same
  · cases ended
    exact fun same => by cases same

/-- The loop that gets past all records has added their entries. -/
theorem Ksyms.Holds.of_foldlM_addRecord
    {allocator : Allocator}
    {ksyms final : Ksyms}
    {entries : List (Name × U64)}
    (holds : ksyms.Holds entries)
    {found : List (List Item)}
    (added : found.foldlM (addRecord allocator) ksyms = .ok final) :
    ∃ more, found.mapM entryOfItems = some more ∧ final.Holds (entries ++ more) := by
  induction found generalizing ksyms entries with
  | nil =>
      obtain rfl := Except.ok.inj added
      exact ⟨[], rfl, by rwa [List.append_nil]⟩
  | cons items found inductionHypothesis =>
      rw [List.foldlM_cons] at added
      cases once : addRecord allocator ksyms items with
      | error result =>
          rw [once] at added
          cases added
      | ok next =>
          rw [once] at added
          obtain ⟨entry, ofItems, symbolAdded⟩ := of_addRecord once
          have grown := holds.addSymbol (clean_of_entryOfItems ofItems) symbolAdded
          obtain ⟨more, ofFound, final⟩ := inductionHypothesis grown added
          refine ⟨entry :: more, ?_, by rwa [List.append_assoc] at final⟩
          rw [List.mapM_cons, ofItems, ofFound]
          rfl

/-- With enough memory the loop gets past records with short names. -/
theorem exists_foldlM_addRecord
    {allocator : Allocator}
    (grants : Ksyms.Grants allocator)
    {ksyms : Ksyms}
    {entries : List (Name × U64)}
    (holds : ksyms.Holds entries)
    {found : List (List Item)}
    {more : List (Name × U64)}
    (ofFound : found.mapM entryOfItems = some more)
    (few : Ksyms.nameBytes (entries ++ more) < Ksyms.nameBytesLimit) :
    ∃ final, found.foldlM (addRecord allocator) ksyms = .ok final := by
  induction found generalizing ksyms entries more with
  | nil => exact ⟨ksyms, rfl⟩
  | cons items found inductionHypothesis =>
      rw [List.mapM_cons] at ofFound
      obtain ⟨entry, ofItems, rest⟩ := Option.bind_eq_some_iff.mp ofFound
      obtain ⟨later, ofLater, same⟩ := Option.bind_eq_some_iff.mp rest
      obtain rfl := Option.some.inj same
      have front : Ksyms.nameBytes (entries ++ [entry]) ≤
          Ksyms.nameBytes (entries ++ entry :: later) := by
        simp only [Ksyms.nameBytes, List.map_append, List.sum_append, List.map_cons, List.sum_cons,
          List.map_nil, List.sum_nil]
        omega
      rw [List.foldlM_cons, addRecord_of_entry allocator ksyms ofItems]
      cases once : ksyms.addSymbol allocator entry.1 entry.2 with
      | ok next =>
          have grown := holds.addSymbol (clean_of_entryOfItems ofItems) once
          refine inductionHypothesis grown ofLater ?_
          rwa [List.append_assoc]
      | error failure =>
          rcases holds.addSymbol_error once with ⟨-, denied⟩ | ⟨-, large⟩
          · exact absurd grants denied
          · exact absurd (Nat.lt_of_le_of_lt (Nat.le_trans large front) few) (Nat.lt_irrefl _)

/-- The calls of the loop are enough for every file. -/
theorem exists_records (file : List Char) :
    ∃ found, records (kallsymsFormat file.length) (file.length + 1) file = some found := by
  have consumes : Scanf.Consumes (kallsymsFormat file.length) := trivial
  exact Option.isSome_iff_exists.mp (Scanf.records_isSome consumes (Nat.lt_succ_self _))

/-- A table that is returned serves a whole file. -/
theorem exists_entries_of_ksymsLoad
    {allocator : Allocator}
    {sorter : Sorter Ksym}
    {calloc : Bool}
    {content : Option (List Char)}
    {ksyms : Ksyms}
    (loaded : ksymsLoad allocator sorter calloc content = .ok (some ksyms)) :
    ∃ file entries, content = some file ∧ kallsymsEntries file = some entries ∧
      ksyms.Serves entries := by
  unfold ksymsLoad at loaded
  cases content with
  | none => cases loaded
  | some file =>
      obtain ⟨⟨found, complete⟩, ofFile⟩ := exists_records file
      dsimp only at loaded
      rw [Scanf.eachRecord_eq _ _ ofFile] at loaded
      cases calloc with
      | false => cases loaded
      | true =>
          rw [if_pos rfl] at loaded
          cases added : found.foldlM (addRecord allocator) Ksyms.start with
          | error result =>
              rw [added] at loaded
              obtain ⟨before, items, after, middle, -, -, ended⟩ := foldlM_eq_error_iff.mp added
              exact absurd loaded (not_table_of_addRecord ended ksyms)
          | ok built =>
              rw [added] at loaded
              cases complete with
              | false => cases loaded
              | true =>
                  obtain ⟨entries, ofFound, holds⟩ := Ksyms.Holds.start.of_foldlM_addRecord added
                  cases loaded
                  refine ⟨file, entries, rfl, ?_, holds.serves sorter⟩
                  unfold kallsymsEntries
                  rw [ofFile]
                  exact ofFound

/-- With enough memory a file that is well formed to its end loads. -/
theorem exists_ksymsLoad
    {allocator : Allocator}
    (grants : Ksyms.Grants allocator)
    (sorter : Sorter Ksym)
    {file : List Char}
    {entries : List (Name × U64)}
    (ofFile : kallsymsEntries file = some entries)
    (few : Ksyms.nameBytes entries < Ksyms.nameBytesLimit) :
    ∃ ksyms, ksymsLoad allocator sorter true (some file) = .ok (some ksyms) := by
  obtain ⟨⟨found, complete⟩, ofFound⟩ := exists_records file
  unfold kallsymsEntries at ofFile
  rw [ofFound] at ofFile
  unfold ksymsLoad
  dsimp only
  rw [if_pos rfl, Scanf.eachRecord_eq _ _ ofFound]
  cases complete with
  | false => cases ofFile
  | true =>
      obtain ⟨built, added⟩ := exists_foldlM_addRecord grants Ksyms.Holds.start ofFile few
      rw [added]
      exact ⟨_, rfl⟩

/-- `ksyms__load` returns a table only for a file that is well formed to its
end, and the table serves every line of it: no failure leaves a part of the
table.  It does return one for every such file, unless memory is wanting or the
names take 3 * 2^27 characters. -/
theorem ksyms_load_all_or_nothing
    (allocator : Allocator)
    (sorter : Sorter Ksym)
    (calloc : Bool)
    (content : Option (List Char)) :
    (∀ ksyms, ksymsLoad allocator sorter calloc content = .ok (some ksyms) →
      ∃ file entries, content = some file ∧ kallsymsEntries file = some entries ∧
        ksyms.Serves entries) ∧
    (Ksyms.Grants allocator → calloc = true → ∀ file entries, content = some file →
      kallsymsEntries file = some entries →
      Ksyms.nameBytes entries < Ksyms.nameBytesLimit →
      ∃ ksyms, ksymsLoad allocator sorter calloc content = .ok (some ksyms)) := by
  refine ⟨fun ksyms loaded => exists_entries_of_ksymsLoad loaded, ?_⟩
  rintro grants rfl file entries rfl ofFile few
  exact exists_ksymsLoad grants sorter ofFile few

/-! ## Lines -/

/-- A line of `/proc/kallsyms`.  The tail is the module, which a blank separates
from the name. -/
structure KallsymsLine where
  symAddr : Scanf.Numeral 16
  symType : Char
  symType_visible : isSpace symType = false
  symName : List Char
  symName_nonempty : symName ≠ []
  symName_visible : ∀ c ∈ symName, isSpace c = false
  symName_clean : nul ∉ symName
  symName_short : symName.length < symNameSize
  tail : List Char
  tail_separate : Scanf.Stops (!isSpace ·) tail
  tail_inLine : ∀ c ∈ tail, c ≠ '\n'

namespace KallsymsLine

/-- The symbol of the line. -/
def entry (line : KallsymsLine) : Name × U64 := (line.symName, line.symAddr.value)

/-- What is scanned of the line. -/
def items (line : KallsymsLine) : List Item :=
  [.integer line.symAddr.value, .text [line.symType], .text line.symName]

/-- The text of the line before its tail. -/
def body (line : KallsymsLine) : List Char :=
  line.symAddr.digits ++ ' ' :: line.symType :: ' ' :: line.symName

/-- A line is read back. -/
theorem scan_body
    (line : KallsymsLine)
    {length : Nat}
    (long : line.body.length ≤ length)
    (rest : List Char) :
    Scanf.scan (kallsymsFormat length) (line.body ++ (line.tail ++ '\n' :: rest)) =
      (line.items, .ok (line.tail ++ '\n' :: rest)) := by
  have typeVisible : ∀ c ∈ [line.symType], isSpace c = false := by
    intro c member
    rw [List.mem_singleton.mp member]
    exact line.symType_visible
  have typeWord := fun tail =>
    Scanf.read_word (List.cons_ne_nil line.symType []) typeVisible tail
  have typeStops : ∀ tail, Scanf.Stops isSpace (line.symType :: tail) :=
    fun _ => line.symType_visible
  have nameStops : ∀ tail, Scanf.Stops isSpace (line.symName ++ tail) := by
    intro tail
    cases name : line.symName with
    | nil => exact absurd name line.symName_nonempty
    | cons c others => exact line.symName_visible c (by simp [name])
  have nameLong : line.symName.length ≤ length := by
    unfold body at long
    simp only [List.length_append, List.length_cons] at long
    omega
  have ends := Scanf.stops_append_newline line.tail_separate rest
  have split : line.body ++ (line.tail ++ '\n' :: rest) = line.symAddr.digits ++
      ' ' :: line.symType :: ' ' :: (line.symName ++ (line.tail ++ '\n' :: rest)) := by
    unfold body
    simp only [List.append_assoc, List.cons_append]
  rw [split]
  unfold kallsymsFormat
  apply Scanf.scan_cons (Scanf.read_integer line.symAddr
    (Scanf.endsNumeral_of_separator (by decide) 16 _))
  apply Scanf.scan_cons (Scanf.read_space (typeStops _))
  apply Scanf.scan_cons (typeWord _)
  apply Scanf.scan_cons (Scanf.read_space (nameStops _))
  apply Scanf.scan_cons (Scanf.read_word_of_stops line.symName_nonempty line.symName_visible
    nameLong ends)
  rfl

/-- The lines of `/proc/kallsyms`. -/
def kind : Scanf.LineFormat KallsymsLine where
  format := kallsymsFormat
  consumes := fun _ => trivial
  body := body
  tail := tail
  items := items
  inLine := tail_inLine
  scanned := fun line _ rest long => line.scan_body long rest

/-- The text of a file. -/
def text (lines : List KallsymsLine) : List Char := kind.text lines

theorem entryOfItems_items (line : KallsymsLine) : entryOfItems line.items = some line.entry := by
  have kept : line.symName.takeWhile (· ≠ nul) = line.symName := by
    refine List.takeWhile_eq_self_iff.mpr fun c member => decide_eq_true fun same => ?_
    exact line.symName_clean (same ▸ member)
  unfold items entryOfItems
  dsimp only
  rw [if_pos line.symName_short, kept]
  rfl

/-- The entries of a file are those of its lines. -/
theorem kallsymsEntries_text (lines : List KallsymsLine) :
    kallsymsEntries (text lines) = some (lines.map entry) := by
  have each : entryOfItems ∘ items = fun line => pure line.entry :=
    funext fun line => line.entryOfItems_items
  have found : records (kallsymsFormat (text lines).length) ((text lines).length + 1)
      (text lines) = some (lines.map items, true) := kind.records_text lines
  unfold kallsymsEntries
  rw [found]
  dsimp only
  rw [List.mapM_map, each, List.mapM_pure]
  rfl

end KallsymsLine

/-! ## Lookups in a table that has been loaded -/

/-- The entry is the last one, by its address and then by its name, that does
not lie above the address. -/
structure IsHighest (entries : List (Name × U64)) (addr : U64) (entry : Name × U64) : Prop where
  listed : entry ∈ entries
  atMost : entry.2 ≤ addr
  last : ∀ other ∈ entries, other.2 ≤ addr →
    other.2 < entry.2 ∨ other.2 = entry.2 ∧ strcmp other.1 entry.1 ≤ 0

/-- What `ksyms__map_addr` should find: the highest entry, and none exactly when
all entries lie above the address. -/
def FindsHighest (entries : List (Name × U64)) (addr : U64) : Option (Name × U64) → Prop
  | some entry => IsHighest entries addr entry
  | none => ∀ other ∈ entries, addr < other.2

/-- The entry is the first one, by its address, with the name. -/
structure IsLowest (entries : List (Name × U64)) (name : Name) (entry : Name × U64) : Prop where
  listed : entry ∈ entries
  named : entry.1 = name
  first : ∀ other ∈ entries, other.1 = name → entry.2 ≤ other.2

/-- What `ksyms__get_symbol` should find: the lowest symbol of the name, and none
exactly when there is no symbol of the name. -/
def FindsLowest (entries : List (Name × U64)) (name : Name) : Option (Name × U64) → Prop
  | some entry => IsLowest entries name entry
  | none => ∀ other ∈ entries, other.1 ≠ name

namespace Ksyms

variable {ksyms : Ksyms} {entries : List (Name × U64)}

/-- Symbols that compare in order have addresses in order, and equal addresses
come with names in order. -/
theorem of_ksymCmp
    {s1 s2 : Ksym}
    (ordered : ksyms.ksymCmp s1 s2 ≤ 0) :
    s1.addr < s2.addr ∨
      s1.addr = s2.addr ∧ strcmp (ksyms.entryOf s1).1 (ksyms.entryOf s2).1 ≤ 0 := by
  unfold ksymCmp at ordered
  split at ordered
  · next same => exact .inr ⟨same, ordered⟩
  · split at ordered
    · next below => exact .inl below
    · exact absurd ordered (by decide)

theorem addr_le_of_ksymCmp
    {s1 s2 : Ksym}
    (ordered : ksyms.ksymCmp s1 s2 ≤ 0) :
    s1.addr ≤ s2.addr := by
  rcases of_ksymCmp ordered with below | ⟨same, -⟩
  · exact BitVec.le_of_lt below
  · exact BitVec.le_of_eq same

@[simp] theorem ksymCmp_self (ksyms : Ksyms) (sym : Ksym) : ksyms.ksymCmp sym sym = 0 := by
  rw [ksyms.ksymCmp_eq, symCmp_self]

/-- In a sorted table what comes no later compares in order. -/
theorem Serves.ksymCmp_getElem
    (serves : ksyms.Serves entries)
    {earlier later : Nat}
    (inside : earlier < ksyms.syms.length)
    (within : later < ksyms.syms.length)
    (order : earlier ≤ later) :
    ksyms.ksymCmp ksyms.syms[earlier] ksyms.syms[later] ≤ 0 := by
  rcases Nat.lt_or_eq_of_le order with before | rfl
  · exact List.pairwise_iff_getElem.mp serves.sorted _ _ _ within before
  · rw [ksymCmp_self]

/-- The loop over a table of fewer than 2^31 symbols is the search over the
integers. -/
theorem Serves.ksymsMapAddr_eq
    (serves : ksyms.Serves entries)
    (addr : U64) :
    ksymsMapAddr ksyms addr =
      match bisectList (fun sym : Ksym => sym.addr ≤ addr) ksyms.syms with
      | none => .error .outOfBounds
      | some (start, stop) =>
          if start = stop then
            match entryAt ksyms.syms start with
            | none => .error .outOfBounds
            | some sym => if sym.addr ≤ addr then .ok (some sym) else .ok none
          else .ok none := by
  have loop : machineBisect fitsInt (readBelow (fun sym : Ksym => sym.addr ≤ addr) ksyms.syms)
      ksyms.syms.length 0 (ksyms.syms.length - 1) =
        bisectList (fun sym : Ksym => sym.addr ≤ addr) ksyms.syms := by
    refine machineBisect_eq _ _ (le_refl 0) (Int.sub_one_lt_of_le (le_refl _)) ?_
    intro value nonneg atMost
    have few := serves.few
    unfold fitsInt
    rw [Bool.and_eq_true, decide_eq_true_iff, decide_eq_true_iff]
    omega
  unfold ksymsMapAddr
  rw [loop]

/-- A lookup by address returns, without reading outside the table, the last
symbol that does not lie above the address. -/
theorem Serves.exists_mapAddr
    (serves : ksyms.Serves entries)
    (addr : U64) :
    ∃ result, ksymsMapAddr ksyms addr = .ok result ∧
      FindsHighest entries addr (result.map ksyms.entryOf) := by
  have ordered : ksyms.syms.Pairwise fun s1 s2 =>
      decide (s2.addr ≤ addr) = true → decide (s1.addr ≤ addr) = true := by
    refine serves.sorted.imp fun compared below => ?_
    rw [decide_eq_true_iff] at below ⊢
    exact BitVec.le_trans (addr_le_of_ksymCmp compared) below
  have listed : ∀ entry, entry ∈ entries ↔ ∃ sym ∈ ksyms.syms, ksyms.entryOf sym = entry := by
    intro entry
    rw [← serves.perm.mem_iff, List.mem_map]
  rw [serves.ksymsMapAddr_eq]
  by_cases nonempty : ksyms.syms = []
  · refine ⟨none, by rw [nonempty]; rfl, ?_⟩
    intro other member
    obtain ⟨sym, inside, -⟩ := (listed other).mp member
    rw [nonempty] at inside
    cases inside
  · obtain ⟨found, inside, search, above, low⟩ := exists_bisectList_of_pairwise
      (fun sym : Ksym => sym.addr ≤ addr) nonempty ordered
    rw [search]
    dsimp only
    rw [if_pos rfl, entryAt_natCast, List.getElem?_eq_getElem inside]
    dsimp only
    by_cases below : ksyms.syms[found].addr ≤ addr
    · refine ⟨some ksyms.syms[found], if_pos below, ?_⟩
      refine ⟨(listed _).mpr ⟨_, List.getElem_mem inside, rfl⟩, below, ?_⟩
      intro other member atMost
      obtain ⟨sym, inTable, rfl⟩ := (listed other).mp member
      obtain ⟨index, within, rfl⟩ := List.mem_iff_getElem.mp inTable
      have notAfter : index ≤ found := by
        refine Nat.le_of_not_lt fun after => ?_
        exact of_decide_eq_false (above index within after) atMost
      exact of_ksymCmp (serves.ksymCmp_getElem within inside notAfter)
    · refine ⟨none, if_neg below, ?_⟩
      intro other member
      obtain ⟨sym, inTable, rfl⟩ := (listed other).mp member
      rcases low with isIt | noneBelow
      · exact absurd (of_decide_eq_true isIt) below
      · exact BitVec.not_le.mp (of_decide_eq_false (noneBelow sym inTable))

/-- A lookup by name returns the lowest symbol of the name. -/
theorem Serves.findsLowest
    (serves : ksyms.Serves entries)
    (name : Name) :
    FindsLowest entries name ((ksymsGetSymbol ksyms name).map ksyms.entryOf) := by
  have listed : ∀ entry, entry ∈ entries ↔ ∃ sym ∈ ksyms.syms, ksyms.entryOf sym = entry := by
    intro entry
    rw [← serves.perm.mem_iff, List.mem_map]
  unfold ksymsGetSymbol
  cases found : ksyms.syms.find? fun sym => strcmp (ksyms.entryOf sym).1 name = 0 with
  | none =>
      intro other member
      obtain ⟨sym, inTable, rfl⟩ := (listed other).mp member
      have different := List.find?_eq_none.mp found sym inTable
      rw [decide_eq_true_iff, strcmp_eq_zero_iff] at different
      exact different
  | some sym =>
      obtain ⟨same, before, after, split, others⟩ := List.find?_eq_some_iff_append.mp found
      rw [decide_eq_true_iff, strcmp_eq_zero_iff] at same
      refine ⟨(listed _).mpr ⟨sym, List.mem_of_find?_eq_some found, rfl⟩, same, ?_⟩
      intro other member named
      obtain ⟨otherSym, inTable, rfl⟩ := (listed other).mp member
      have sorted := serves.sorted
      rw [split] at sorted inTable
      rcases List.mem_append.mp inTable with early | late
      · have different := others otherSym early
        rw [Bool.not_eq_true', decide_eq_false_iff_not, strcmp_eq_zero_iff] at different
        exact absurd named different
      · rcases List.mem_cons.mp late with rfl | later
        · exact BitVec.le_refl _
        · have compared := (List.pairwise_cons.mp (List.pairwise_append.mp sorted).2.1).1
            otherSym later
          exact addr_le_of_ksymCmp compared

end Ksyms

/-- A file of lines whose names take fewer than 3 * 2^27 characters loads when
memory suffices, into a table that serves its lines. -/
theorem exists_ksymsLoad_text
    {allocator : Allocator}
    (grants : Ksyms.Grants allocator)
    (sorter : Sorter Ksym)
    {lines : List KallsymsLine}
    (few : Ksyms.nameBytes (lines.map KallsymsLine.entry) < Ksyms.nameBytesLimit) :
    ∃ ksyms, ksymsLoad allocator sorter true (some (KallsymsLine.text lines)) = .ok (some ksyms) ∧
      ksyms.Serves (lines.map KallsymsLine.entry) := by
  have ofFile := KallsymsLine.kallsymsEntries_text lines
  obtain ⟨ksyms, loaded⟩ := exists_ksymsLoad grants sorter ofFile few
  obtain ⟨file, entries, same, ofSame, serves⟩ := exists_entries_of_ksymsLoad loaded
  obtain rfl := Option.some.inj same
  obtain rfl := Option.some.inj (ofSame.symm.trans ofFile)
  exact ⟨ksyms, loaded, serves⟩

/-- What `ksyms__map_addr` finds in the table of a file of lines is the line with
the greatest address that is not above the one asked for, the last by name
among those; it finds none exactly when all lines lie above. -/
theorem kallsyms_address_names_highest
    {allocator : Allocator}
    (grants : Ksyms.Grants allocator)
    (sorter : Sorter Ksym)
    (lines : List KallsymsLine)
    (few : Ksyms.nameBytes (lines.map KallsymsLine.entry) < Ksyms.nameBytesLimit) :
    ∃ ksyms, ksymsLoad allocator sorter true (some (KallsymsLine.text lines)) = .ok (some ksyms) ∧
      ∀ addr, ∃ result, ksymsMapAddr ksyms addr = .ok result ∧
        FindsHighest (lines.map KallsymsLine.entry) addr (result.map ksyms.entryOf) := by
  obtain ⟨ksyms, loaded, serves⟩ := exists_ksymsLoad_text grants sorter few
  exact ⟨ksyms, loaded, serves.exists_mapAddr⟩

/-- What `ksyms__get_symbol` finds is the line of the name with the least
address, and a lookup of that address finds a line with the same address, whose
name is no earlier. -/
theorem kallsyms_name_and_back
    {allocator : Allocator}
    (grants : Ksyms.Grants allocator)
    (sorter : Sorter Ksym)
    (lines : List KallsymsLine)
    (few : Ksyms.nameBytes (lines.map KallsymsLine.entry) < Ksyms.nameBytesLimit) :
    ∃ ksyms, ksymsLoad allocator sorter true (some (KallsymsLine.text lines)) = .ok (some ksyms) ∧
      ∀ name,
        FindsLowest (lines.map KallsymsLine.entry) name
          ((ksymsGetSymbol ksyms name).map ksyms.entryOf) ∧
        ∀ sym, ksymsGetSymbol ksyms name = some sym →
          ∃ back, ksymsMapAddr ksyms sym.addr = .ok (some back) ∧ back.addr = sym.addr ∧
            strcmp name (ksyms.entryOf back).1 ≤ 0 := by
  obtain ⟨ksyms, loaded, serves⟩ := exists_ksymsLoad_text grants sorter few
  refine ⟨ksyms, loaded, fun name => ⟨serves.findsLowest name, ?_⟩⟩
  intro sym found
  have lowest := serves.findsLowest name
  rw [found] at lowest
  obtain ⟨listed, named, -⟩ := lowest
  obtain ⟨result, mapped, highest⟩ := serves.exists_mapAddr sym.addr
  cases result with
  | none => exact absurd (highest _ listed) (BitVec.lt_irrefl _)
  | some back =>
      refine ⟨back, mapped, ?_⟩
      rcases highest.last _ listed (BitVec.le_refl _) with below | ⟨same, order⟩
      · exact absurd highest.atMost (BitVec.not_le.mpr below)
      · exact ⟨same.symm, named ▸ order⟩

/-! ## A file of two lines -/

/-- An allocator that never fails and moves the array of names at every call. -/
def movingAllocator : Allocator where
  growStrs := fun count cap => some (BitVec.ofNat 64 (4096 * count + cap))
  growSyms := fun _ _ => true

theorem movingAllocator_grants : Ksyms.Grants movingAllocator where
  strs := fun _ _ => Option.some_ne_none _
  syms := fun _ _ => rfl

/-- `20 T up` -/
def upperLine : KallsymsLine where
  symAddr := ⟨['2', '0'], by simp, List.all_eq_true.mp (by decide), by decide⟩
  symType := 'T'
  symType_visible := by decide
  symName := ['u', 'p']
  symName_nonempty := by simp
  symName_visible := by simp [isSpace]
  symName_clean := by simp [nul]
  symName_short := by decide
  tail := []
  tail_separate := trivial
  tail_inLine := fun c member => by cases member

/-- `10 t low` with a module. -/
def lowerLine : KallsymsLine where
  symAddr := ⟨['1', '0'], by simp, List.all_eq_true.mp (by decide), by decide⟩
  symType := 't'
  symType_visible := by decide
  symName := ['l', 'o', 'w']
  symName_nonempty := by simp
  symName_visible := by simp [isSpace]
  symName_clean := by simp [nul]
  symName_short := by decide
  tail := ['\t', '[', 'm', ']']
  tail_separate := rfl
  tail_inLine := by simp

/-- The two lines, the upper one first. -/
def twoKallsyms : List KallsymsLine := [upperLine, lowerLine]

theorem names_survive_growth_twoKallsyms :
    ∃ ksyms, Ksyms.start.addSymbols movingAllocator (twoKallsyms.map KallsymsLine.entry) =
        .ok ksyms ∧
      ksyms.Reads (twoKallsyms.map KallsymsLine.entry) :=
  ⟨_, rfl, (Ksyms.names_survive_growth movingAllocator (twoKallsyms.map KallsymsLine.entry)
    (by simp [twoKallsyms, upperLine, lowerLine, KallsymsLine.entry, nul])).1 _ rfl⟩

theorem ksyms_load_all_or_nothing_twoKallsyms :
    ∃ ksyms, ksymsLoad movingAllocator (.insertion Ksym) true
      (some (KallsymsLine.text twoKallsyms)) = .ok (some ksyms) :=
  (ksyms_load_all_or_nothing movingAllocator (.insertion Ksym) true
    (some (KallsymsLine.text twoKallsyms))).2 movingAllocator_grants rfl _ _ rfl
      (KallsymsLine.kallsymsEntries_text twoKallsyms) (by decide)

theorem kallsyms_address_names_highest_twoKallsyms :
    ∃ ksyms, ksymsLoad movingAllocator (.insertion Ksym) true
        (some (KallsymsLine.text twoKallsyms)) = .ok (some ksyms) ∧
      ∀ addr, ∃ result, ksymsMapAddr ksyms addr = .ok result ∧
        FindsHighest (twoKallsyms.map KallsymsLine.entry) addr (result.map ksyms.entryOf) :=
  kallsyms_address_names_highest movingAllocator_grants (.insertion Ksym) twoKallsyms (by decide)

theorem kallsyms_name_and_back_twoKallsyms :
    ∃ ksyms, ksymsLoad movingAllocator (.insertion Ksym) true
        (some (KallsymsLine.text twoKallsyms)) = .ok (some ksyms) ∧
      ∀ name,
        FindsLowest (twoKallsyms.map KallsymsLine.entry) name
          ((ksymsGetSymbol ksyms name).map ksyms.entryOf) ∧
        ∀ sym, ksymsGetSymbol ksyms name = some sym →
          ∃ back, ksymsMapAddr ksyms sym.addr = .ok (some back) ∧ back.addr = sym.addr ∧
            strcmp name (ksyms.entryOf back).1 ≤ 0 :=
  kallsyms_name_and_back movingAllocator_grants (.insertion Ksym) twoKallsyms (by decide)

/-- The address in between belongs to the lower symbol. -/
example :
    (match ksymsLoad movingAllocator (.insertion Ksym) true
        (some (KallsymsLine.text twoKallsyms)) with
      | .ok (some ksyms) =>
          match ksymsMapAddr ksyms 0x1f with
          | .ok (some sym) => some (ksyms.entryOf sym)
          | _ => none
      | _ => none) = some (['l', 'o', 'w'], 0x10) := by
  decide +kernel

end Symbols
end EbpfHub
