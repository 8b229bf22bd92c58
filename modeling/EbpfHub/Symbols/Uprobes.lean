import EbpfHub.Symbols.Attribution

/-!
# Where a uprobe for a function goes

`get_elf_func_offset` of `uprobe_helpers.c` finds the offset of a function in an
ELF file.  Wherever the file is mapped, the address of that offset is the one
that `trace_helpers.c` names after the function.
-/

namespace EbpfHub
namespace Symbols

open Foundations

/-! ## What libelf hands out -/

/-- An entry of a symbol table with its `st_info`. -/
structure FuncSym where
  sym : GElfSym
  stInfo : BitVec 8

/-- `GELF_ST_TYPE(sym->st_info)`. -/
def FuncSym.stType (entry : FuncSym) : BitVec 8 := entry.stInfo &&& 0xf

/-- `STT_FUNC`. -/
def sttFunc : BitVec 8 := 2

/-- A data block.  `gelf_getsym` hands out its entries and fails behind the
last. -/
structure SymData where
  dSize : Nat
  entries : List FuncSym

/-- A section: `gelf_getshdr`, `none` when it fails, and its data blocks. -/
structure SymScn where
  header : Option GElfShdr
  data : List SymData

/-- A program header. -/
structure GElfPhdr where
  pType : BitVec 32
  pFlags : BitVec 32
  pOffset : U64
  pVaddr : U64
  pMemsz : U64

/-- `PT_LOAD`. -/
def ptLoad : BitVec 32 := 1

/-- `PF_X`. -/
def pfX : BitVec 32 := 1

/-- An ELF file with its program headers. -/
structure ElfImage where
  /-- `gelf_getehdr`, `none` when it fails, and `e_type`. -/
  eType : Option (BitVec 16)
  /-- `elf_getshdrstrndx` succeeds. -/
  hasShdrstrndx : Bool
  sections : List SymScn
  /-- `elf_getphdrnum`, `none` when it fails, and `gelf_getphdr` of each
  header, `none` when that fails. -/
  phdrs : Option (List (Option GElfPhdr))

/-- The data block as the loader of symbols sees it. -/
def SymData.elfData (data : SymData) : ElfData where
  dSize := data.dSize
  getsym := fun i => data.entries[i]?.map FuncSym.sym

/-- The section as the loader of symbols sees it. -/
def SymScn.elfScn (scn : SymScn) : ElfScn where
  header := scn.header
  data := scn.data.map SymData.elfData

/-- The file as the loader of symbols sees it. -/
def ElfImage.elf (image : ElfImage) : Elf where
  eType := image.eType
  hasShdrstrndx := image.hasShdrstrndx
  sections := image.sections.map SymScn.elfScn

/-! ## The offset of a function -/

/-- The loop over the entries of a data block. -/
def findFuncEntry (func : Name) : List FuncSym → Option U64
  | [] => none
  | entry :: rest =>
      match entry.sym.name with
      | none => findFuncEntry func rest
      | some n =>
          if entry.stType ≠ sttFunc then findFuncEntry func rest
          else if strcmp n func = 0 then some entry.sym.stValue
          else findFuncEntry func rest

/-- The loop over the data blocks of a section. -/
def findFuncData (func : Name) : List SymData → Option U64
  | [] => none
  | data :: rest =>
      match findFuncEntry func data.entries with
      | some value => some value
      | none => findFuncData func rest

/-- The loop over the sections. -/
def findFunc (func : Name) : List SymScn → Option U64
  | [] => none
  | scn :: rest =>
      match scn.header with
      | none => findFunc func rest
      | some header =>
          if header.isSymTable = false then findFunc func rest
          else
            match findFuncData func scn.data with
            | some value => some value
            | none => findFunc func rest

/-- The loop over the program headers.  The comparisons are those of unsigned
numbers. -/
def toFileOffset (ret : U64) : List (Option GElfPhdr) → U64
  | [] => -1
  | none :: rest => toFileOffset ret rest
  | some phdr :: rest =>
      if phdr.pType ≠ ptLoad ∨ phdr.pFlags &&& pfX = 0 then toFileOffset ret rest
      else if phdr.pVaddr ≤ ret ∧ ret < phdr.pVaddr + phdr.pMemsz then
        ret - phdr.pVaddr + phdr.pOffset
      else toFileOffset ret rest

/-- The headers that the loop visits, whose number is taken as an `int`. -/
def visitedPhdrs (phdrs : List (Option GElfPhdr)) : List (Option GElfPhdr) :=
  phdrs.take (BitVec.ofNat 32 phdrs.length).toInt.toNat

/-- `get_elf_func_offset`. -/
def getElfFuncOffset (openElf : Name → Option ElfImage) (path func : Name) : U64 :=
  match openElf path with
  | none => -1
  | some e =>
      match e.eType with
      | none => -1
      | some eType =>
          if e.hasShdrstrndx = false then -1
          else
            let ret := (findFunc func e.sections).getD (-1)
            if eType = etExec ∨ eType = etDyn then
              match e.phdrs with
              | none => -1
              | some phdrs => toFileOffset ret (visitedPhdrs phdrs)
            else ret

/-! ## What is found -/

/-- The header is that of an executable segment that is loaded. -/
def GElfPhdr.Executable (phdr : GElfPhdr) : Prop :=
  phdr.pType = ptLoad ∧ phdr.pFlags &&& pfX ≠ 0

/-- The header is that of an executable segment with the address. -/
structure GElfPhdr.Holds (phdr : GElfPhdr) (value : U64) : Prop where
  executable : phdr.Executable
  above : phdr.pVaddr ≤ value
  below : value < phdr.pVaddr + phdr.pMemsz

/-- The function has an entry with the value in a symbol table of the file. -/
def ElfImage.HasFunc (image : ElfImage) (func : Name) (value : U64) : Prop :=
  ∃ scn ∈ image.sections, ∃ header, scn.header = some header ∧ header.isSymTable = true ∧
    ∃ data ∈ scn.data, ∃ entry ∈ data.entries,
      entry.sym.name = some func ∧ entry.stType = sttFunc ∧ entry.sym.stValue = value

theorem findFuncEntry_eq_some
    {func : Name}
    {value : U64}
    {entries : List FuncSym}
    (found : findFuncEntry func entries = some value) :
    ∃ entry ∈ entries,
      entry.sym.name = some func ∧ entry.stType = sttFunc ∧ entry.sym.stValue = value := by
  induction entries with
  | nil => cases found
  | cons entry rest inductionHypothesis =>
      have later : findFuncEntry func rest = some value → ∃ other ∈ entry :: rest,
          other.sym.name = some func ∧ other.stType = sttFunc ∧ other.sym.stValue = value := by
        intro inRest
        obtain ⟨other, member, isIt⟩ := inductionHypothesis inRest
        exact ⟨other, List.mem_cons_of_mem _ member, isIt⟩
      unfold findFuncEntry at found
      split at found
      · exact later found
      · next n named =>
          split at found
          · exact later found
          · next isFunc =>
              split at found
              · next same =>
                  obtain rfl := strcmp_eq_zero_iff.mp same
                  exact ⟨entry, List.mem_cons_self, named, not_not.mp isFunc,
                    Option.some.inj found⟩
              · exact later found

theorem findFuncData_eq_some
    {func : Name}
    {value : U64}
    {blocks : List SymData}
    (found : findFuncData func blocks = some value) :
    ∃ data ∈ blocks, findFuncEntry func data.entries = some value := by
  induction blocks with
  | nil => cases found
  | cons data rest inductionHypothesis =>
      unfold findFuncData at found
      split at found
      · next first =>
          rw [← found]
          exact ⟨data, List.mem_cons_self, first⟩
      · obtain ⟨other, member, isIt⟩ := inductionHypothesis found
        exact ⟨other, List.mem_cons_of_mem _ member, isIt⟩

theorem findFunc_eq_some
    {func : Name}
    {value : U64}
    {sections : List SymScn}
    (found : findFunc func sections = some value) :
    ∃ scn ∈ sections, ∃ header, scn.header = some header ∧ header.isSymTable = true ∧
      findFuncData func scn.data = some value := by
  induction sections with
  | nil => cases found
  | cons scn rest inductionHypothesis =>
      have later : findFunc func rest = some value → ∃ other ∈ scn :: rest, ∃ header,
          other.header = some header ∧ header.isSymTable = true ∧
            findFuncData func other.data = some value := by
        intro inRest
        obtain ⟨other, member, isIt⟩ := inductionHypothesis inRest
        exact ⟨other, List.mem_cons_of_mem _ member, isIt⟩
      unfold findFunc at found
      split at found
      · exact later found
      · next header hasHeader =>
          split at found
          · exact later found
          · next isTable =>
              split at found
              · next first =>
                  rw [← found]
                  exact ⟨scn, List.mem_cons_self, header, hasHeader,
                    Bool.eq_true_of_not_eq_false isTable, first⟩
              · exact later found

/-- The value that is found is that of an entry of the function. -/
theorem hasFunc_of_findFunc
    {func : Name}
    {value : U64}
    {image : ElfImage}
    (found : findFunc func image.sections = some value) :
    image.HasFunc func value := by
  obtain ⟨scn, inSections, header, hasHeader, isTable, inScn⟩ := findFunc_eq_some found
  obtain ⟨data, inData, inBlock⟩ := findFuncData_eq_some inScn
  exact ⟨scn, inSections, header, hasHeader, isTable, data, inData,
    findFuncEntry_eq_some inBlock⟩

/-- An offset that is found is that of the value in an executable segment. -/
theorem toFileOffset_spec
    {ret off : U64}
    {phdrs : List (Option GElfPhdr)}
    (found : toFileOffset ret phdrs = off)
    (succeeds : off ≠ -1) :
    ∃ phdr, some phdr ∈ phdrs ∧ phdr.Holds ret ∧ off = ret - phdr.pVaddr + phdr.pOffset := by
  induction phdrs with
  | nil => exact absurd found.symm succeeds
  | cons header rest inductionHypothesis =>
      have later : toFileOffset ret rest = off → ∃ phdr, some phdr ∈ header :: rest ∧
          phdr.Holds ret ∧ off = ret - phdr.pVaddr + phdr.pOffset := by
        intro inRest
        obtain ⟨phdr, member, isIt⟩ := inductionHypothesis inRest
        exact ⟨phdr, List.mem_cons_of_mem _ member, isIt⟩
      cases header with
      | none => exact later found
      | some phdr =>
          unfold toFileOffset at found
          split at found
          · exact later found
          · next executable =>
              rw [not_or, not_not] at executable
              split at found
              · next contains =>
                  exact ⟨phdr, List.mem_cons_self, ⟨executable, contains.1, contains.2⟩,
                    found.symm⟩
              · exact later found

/-- No segment contains the value that stands for no function. -/
theorem toFileOffset_neg_one (phdrs : List (Option GElfPhdr)) : toFileOffset (-1) phdrs = -1 := by
  induction phdrs with
  | nil => rfl
  | cons header rest inductionHypothesis =>
      cases header with
      | none => exact inductionHypothesis
      | some phdr =>
          have outside : ¬(phdr.pVaddr ≤ -1 ∧ -1 < phdr.pVaddr + phdr.pMemsz) := by
            rintro ⟨-, below⟩
            have top := (phdr.pVaddr + phdr.pMemsz).isLt
            have least : (-1 : U64).toNat < (phdr.pVaddr + phdr.pMemsz).toNat := below
            have largest : (-1 : U64).toNat = 2 ^ 64 - 1 := rfl
            omega
          rw [toFileOffset, if_neg outside, inductionHypothesis, ite_self]

/-- An offset that `get_elf_func_offset` finds in a program or a shared object
is that of the function's value in an executable segment. -/
theorem getElfFuncOffset_spec
    {openElf : Name → Option ElfImage}
    {path func : Name}
    {image : ElfImage}
    {eType : BitVec 16}
    {off : U64}
    (opened : openElf path = some image)
    (type : image.eType = some eType)
    (loadable : eType = etExec ∨ eType = etDyn)
    (found : getElfFuncOffset openElf path func = off)
    (succeeds : off ≠ -1) :
    ∃ value phdrs phdr, findFunc func image.sections = some value ∧
      image.phdrs = some phdrs ∧ some phdr ∈ phdrs ∧ phdr.Holds value ∧
        off = value - phdr.pVaddr + phdr.pOffset := by
  unfold getElfFuncOffset at found
  rw [opened] at found
  simp only [type, loadable, if_true] at found
  split at found
  · exact absurd found.symm succeeds
  · cases headers : image.phdrs with
    | none =>
        rw [headers] at found
        exact absurd found.symm succeeds
    | some phdrs =>
        rw [headers] at found
        cases search : findFunc func image.sections with
        | none =>
            rw [search, Option.getD_none] at found
            exact absurd (found.symm.trans (toFileOffset_neg_one _)) succeeds
        | some value =>
            rw [search, Option.getD_some] at found
            obtain ⟨phdr, member, holds, place⟩ := toFileOffset_spec found succeeds
            exact ⟨value, phdrs, phdr, rfl, rfl, List.mem_of_mem_take member, holds, place⟩

/-! ## The symbols of the file -/

/-- The sizes of the symbol tables are those of their entries. -/
def ElfImage.WholeTables (image : ElfImage) : Prop :=
  ∀ scn ∈ image.sections, ∀ header, scn.header = some header → header.isSymTable = true →
    ∀ data ∈ scn.data, data.dSize = header.shEntsize * data.entries.length

/-- A function with a value is among the symbols that are loaded. -/
theorem ElfImage.HasFunc.exists_symbol
    {image : ElfImage}
    {func : Name}
    {value : U64}
    (hasFunc : image.HasFunc func value)
    (named : func ≠ [])
    (defined : value ≠ 0)
    (whole : image.WholeTables)
    (sized : ∀ scn ∈ image.elf.sections, scn.WellSized) :
    ∃ size, (⟨func, value, size, 0⟩ : Sym) ∈ image.elf.symbols := by
  obtain ⟨scn, inSections, header, hasHeader, isTable, data, inData, entry, inEntries, name, -,
    rfl⟩ := hasFunc
  obtain ⟨i, within, rfl⟩ := List.mem_iff_getElem.mp inEntries
  have inElf : scn.elfScn ∈ image.elf.sections := List.mem_map_of_mem inSections
  have inBlocks : data.elfData ∈ scn.elfScn.data := List.mem_map_of_mem inData
  have divides : header.shEntsize ≠ 0 := by
    have wellSized := sized _ inElf
    unfold ElfScn.WellSized SymScn.elfScn at wellSized
    simp only [hasHeader] at wellSized
    exact (wellSized isTable data.elfData inBlocks).1
  have count : data.elfData.dSize / header.shEntsize = data.entries.length := by
    rw [SymData.elfData, whole scn inSections header hasHeader isTable data inData]
    exact Nat.mul_div_cancel_left _ (Nat.pos_of_ne_zero divides)
  refine ⟨data.entries[i].sym.stSize, ?_⟩
  refine List.mem_flatMap.mpr ⟨scn.elfScn, inElf, ?_⟩
  have symbols : scn.elfScn.symbols =
      scn.elfScn.data.flatMap (ElfData.symbols header.shEntsize) := by
    unfold ElfScn.symbols SymScn.elfScn
    simp only [hasHeader, isTable, if_true]
  rw [symbols]
  refine List.mem_flatMap.mpr ⟨data.elfData, inBlocks, List.mem_filterMap.mpr ⟨i, ?_, ?_⟩⟩
  · rw [List.mem_range, count]
    exact within
  · have read : data.elfData.getsym i = some data.entries[i].sym := by
      rw [SymData.elfData]
      simp [List.getElem?_eq_getElem within]
    rw [ElfData.symAt, read, Option.bind_some, name, Option.bind_some, if_neg]
    rw [not_or]
    exact ⟨named, defined⟩

/-- Where a symbol does not start above the offset, there is a last one. -/
theorem exists_isLast
    {symbols : List Sym}
    {offset : U64}
    {sym : Sym}
    (member : sym ∈ symbols)
    (below : sym.start ≤ offset) :
    ∃ loaded, IsLast symbols offset loaded := by
  induction symbols generalizing sym with
  | nil => cases member
  | cons first rest inductionHypothesis =>
      by_cases others : ∃ other ∈ rest, other.start ≤ offset
      · obtain ⟨other, inRest, under⟩ := others
        obtain ⟨loaded, isLast⟩ := inductionHypothesis inRest under
        have keeps : (first.start ≤ offset → symCmp first loaded ≤ 0) →
            ∃ loaded, IsLast (first :: rest) offset loaded := by
          intro ordered
          refine ⟨loaded, List.mem_cons_of_mem _ isLast.mem, isLast.start_le, ?_⟩
          exact List.forall_mem_cons.mpr ⟨ordered, isLast.last⟩
        by_cases low : first.start ≤ offset
        · rcases symCmp_total first loaded with ordered | ordered
          · exact keeps fun _ => ordered
          · refine ⟨first, List.mem_cons_self, low, List.forall_mem_cons.mpr ⟨?_, ?_⟩⟩
            · exact fun _ => (symCmp_self first).le
            · exact fun other inRest under => symCmp_trans (isLast.last other inRest under) ordered
        · exact keeps fun isLow => absurd isLow low
      · have alone : ∀ other ∈ rest, ¬other.start ≤ offset :=
          fun other inRest under => others ⟨other, inRest, under⟩
        obtain rfl : sym = first :=
          (List.mem_cons.mp member).resolve_right fun inRest => alone sym inRest below
        refine ⟨sym, List.mem_cons_self, below, List.forall_mem_cons.mpr ⟨?_, ?_⟩⟩
        · exact fun _ => (symCmp_self sym).le
        · exact fun other inRest under => absurd under (alone other inRest)

/-- An offset where symbols with a size start is named after one of them. -/
theorem NamesLast.of_start
    {symbols : List Sym}
    {value : U64}
    {result : Option Sym}
    (names : NamesLast symbols value result)
    {sym : Sym}
    (member : sym ∈ symbols)
    (start : sym.start = value)
    (filled : ∀ sym ∈ symbols, sym.start = value → sym.size ≠ 0) :
    ∃ loaded ∈ symbols, loaded.start = value ∧
      result = some { loaded with offset := 0 } := by
  have begins : ∀ loaded, IsLast symbols value loaded → loaded.start = value := by
    intro loaded isLast
    have above := start_le_of_symCmp (isLast.last sym member (BitVec.le_of_eq start))
    exact BitVec.le_antisymm isLast.start_le (start ▸ above)
  cases result with
  | some found =>
      obtain ⟨loaded, isLast, -, rfl⟩ := names.found found rfl
      refine ⟨loaded, isLast.mem, begins loaded isLast, ?_⟩
      rw [begins loaded isLast, BitVec.sub_self]
      rfl
  | none =>
      rcases names.missing rfl with noLast | ⟨loaded, isLast, uncovered⟩
      · obtain ⟨loaded, isLast⟩ := exists_isLast member (BitVec.le_of_eq start)
        exact absurd isLast (noLast loaded)
      · refine absurd ?_ uncovered
        have same := begins loaded isLast
        have size : loaded.size.toNat ≠ 0 := by
          intro empty
          exact filled loaded isLast.mem same (BitVec.eq_of_toNat_eq empty)
        rw [Sym.Covers, same]
        omega

/-! ## The address of the offset -/

/-- The file of the name is a program or a shared object, whose symbols can be
read and loaded, and there is memory for its name. -/
structure ElfImage.Readable (system : System) (name : Name) (image : ElfImage) : Prop where
  copied : system.strdupFails name = false
  ordinary : isVdso name = false ∧ isUprobes name = false
  opened : system.openElf name = some image.elf
  loadable : image.eType = some etExec ∨ image.eType = some etDyn
  clean : image.elf.LoadsCleanly system (Dso.new system name)
  whole : image.WholeTables
  noWrap : ∀ sym ∈ image.elf.symbols, sym.NoWrap

/-- The segment lies in memory as the names of addresses suppose: a shared
object is moved as far from its file as its text section, and a program is
mapped where its header says. -/
def LaidOut (system : System) (line : MapsLine) (phdr : GElfPhdr) : Prop :=
  if objectType system line.name = .dyn then
    (textScn system line.name).1 - (textScn system line.name).2 = phdr.pVaddr - phdr.pOffset
  else line.map.startAddr - line.map.fileOff = phdr.pVaddr - phdr.pOffset

/-- The address at which the mapping shows an offset of its file. -/
def MapsLine.addressOf (line : MapsLine) (off : U64) : U64 :=
  line.map.startAddr + (off - line.map.fileOff)

theorem ElfImage.Readable.objectType
    {system : System}
    {name : Name}
    {image : ElfImage}
    (readable : image.Readable system name) :
    Symbols.objectType system name = .exec ∨ Symbols.objectType system name = .dyn := by
  have type : getElfType system name = image.eType := by
    unfold getElfType
    rw [readable.ordinary.1, readable.ordinary.2, readable.opened]
    rfl
  unfold Symbols.objectType
  rw [type]
  rcases readable.loadable with exec | dyn
  · exact .inl (if_pos exec)
  · right
    rw [dyn, if_neg (by decide), if_pos rfl]

/-- The names of addresses undo the way from a value to its offset and on to its
address. -/
theorem MapsLine.dsoOffset_addressOf
    {system : System}
    {line : MapsLine}
    {phdr : GElfPhdr}
    (type : objectType system line.name = .exec ∨ objectType system line.name = .dyn)
    (laidOut : LaidOut system line phdr)
    (value : U64) :
    line.dsoOffset system (line.addressOf (value - phdr.pVaddr + phdr.pOffset)) = value := by
  unfold LaidOut at laidOut
  unfold MapsLine.dsoOffset MapsLine.addressOf
  rcases type with exec | dyn
  · rw [exec] at laidOut ⊢
    rw [if_neg (by decide)] at laidOut
    rw [if_neg (by decide)]
    grind
  · rw [if_pos dyn] at laidOut
    rw [if_pos (.inl dyn)]
    grind

/-- The offset that `get_elf_func_offset` finds for a function in a segment that
is moved as far as the text section, and the names of addresses agree: the
address at which a mapping of the file shows that offset, unless it is the first
of the mapping, is named after the function, at the distance zero from its
start. -/
theorem uprobe_address_named
    (system : System)
    (qsort : Qsort)
    (openElf : Name → Option ElfImage)
    {content : List Char}
    {lines : List MapsLine}
    {syms : Syms}
    (file : IsMapsFile content lines)
    (disjoint : DisjointRanges lines)
    (loaded : loadFile system (some content) = .ok syms)
    {line : MapsLine}
    (inLines : line ∈ lines)
    (mapped : line.mapped = true)
    {image : ElfImage}
    (opened : openElf line.name = some image)
    (readable : image.Readable system line.name)
    {func : Name}
    {off : U64}
    (found : getElfFuncOffset openElf line.name func = off)
    (succeeds : off ≠ -1)
    (laidOut : ∀ value, findFunc func image.sections = some value →
      ∀ phdrs, image.phdrs = some phdrs → ∀ phdr, some phdr ∈ phdrs →
        phdr.Holds value → LaidOut system line phdr)
    (named : func ≠ [])
    (defined : findFunc func image.sections ≠ some 0)
    (alone : ∀ sym ∈ image.elf.symbols, findFunc func image.sections = some sym.start →
      sym.name = func ∧ sym.size ≠ 0)
    (contains : line.Contains (line.addressOf off))
    (later : line.addressOf off ≠ line.map.startAddr) :
    ∃ final sinfo,
      mapAddrDso system qsort syms (line.addressOf off) = .ok (final, some sinfo) ∧
        sinfo.dsoName = some line.name ∧ sinfo.symName = some func ∧ sinfo.symOffset = 0 := by
  obtain ⟨eType, type, isLoadable⟩ : ∃ eType, image.eType = some eType ∧
      (eType = etExec ∨ eType = etDyn) := by
    rcases readable.loadable with exec | dyn
    · exact ⟨etExec, exec, .inl rfl⟩
    · exact ⟨etDyn, dyn, .inr rfl⟩
  obtain ⟨value, phdrs, phdr, search, headers, member, holds, rfl⟩ :=
    getElfFuncOffset_spec opened type isLoadable found succeeds
  have offset := MapsLine.dsoOffset_addressOf readable.objectType
    (laidOut value search phdrs headers phdr member holds) value
  obtain ⟨size, isSymbol⟩ := (hasFunc_of_findFunc search).exists_symbol named
    (fun zero => defined (zero ▸ search)) readable.whole readable.clean.wellSized
  rcases (groups_of_loadFile file loaded).findDso
      (line.addressOf (value - phdr.pVaddr + phdr.pOffset)) with
    ⟨-, onlyFirst⟩ | ⟨j, other, inOthers, covers, -, find⟩
  · exact absurd (onlyFirst line inLines ⟨mapped, contains⟩) later
  · obtain rfl := disjoint.eq_of_contains inOthers inLines covers.2 contains
    rw [offset] at find
    have fileOpened : (objectOf system lines other.name).file system = some image.elf := by
      rw [file_objectOf readable.copied]
      unfold objectFile
      rcases readable.objectType with exec | dyn
      · rw [exec]
        exact readable.opened
      · rw [dyn]
        exact readable.opened
    have serves : (objectOf system lines other.name).Serves qsort image.elf.symbols :=
      ⟨rfl, .inl rfl⟩
    obtain ⟨table, result, lookup, -, names⟩ :=
      findSym_spec serves fileOpened (loadsCleanly_objectOf_iff.mpr readable.clean)
        readable.noWrap value
    obtain ⟨symbol, inSymbols, start, rfl⟩ := names.of_start isSymbol rfl fun sym inTable same =>
      (alone sym inTable (same ▸ search)).2
    rw [mapAddrDso, find]
    dsimp only
    rw [lookup]
    have pointer := (@namePointer_objectOf_iff system lines other.name).mpr readable.copied
    exact ⟨_, _, rfl, pointer, congrArg some (alone symbol inSymbols (start ▸ search)).1, rfl⟩

/-! ## One function -/

/-- A shared object with a function at 0x3180, which is moved by 0x3000 from its
place in the file. -/
def workImage : ElfImage where
  eType := some etDyn
  hasShdrstrndx := true
  sections :=
    [{ header := some
        { name := some ".text".toList
          shType := 1
          shAddr := 0x3100
          shOffset := 0x100
          shEntsize := 0 }
       data := [] },
     { header := some
        { name := some ".symtab".toList
          shType := shtSymtab
          shAddr := 0
          shOffset := 0
          shEntsize := 24 }
       data := [{ dSize := 24, entries := [⟨⟨some "work".toList, 0x3180, 0x20⟩, 0x12⟩] }] }]
  phdrs := some [none, some ⟨ptLoad, 5, 0, 0x3000, 0x1000⟩]

/-- A process that has mapped it. -/
def workSystem : System := oneFile "/a".toList workImage.elf

/-- Its objects. -/
def workSyms : Syms :=
  [{ name := "/a".toList
     ranges := [⟨0x1000, 0x2000, 0⟩]
     shAddr := 0x3100
     shOffset := 0x100
     type := .dyn
     syms := none
     released := false }]

theorem workImage_readable : workImage.Readable workSystem oneLine.name where
  copied := rfl
  ordinary := by decide
  opened := rfl
  loadable := .inr rfl
  clean := by
    refine ⟨?_, fun _ _ => ⟨rfl, rfl⟩⟩
    intro scn member
    rcases List.mem_pair.mp member with rfl | rfl
    · exact fun isTable => by cases isTable
    · intro _ data inData
      obtain rfl := List.mem_singleton.mp inData
      exact ⟨by decide, by decide⟩
  whole := by
    intro scn member header hasHeader isTable data inData
    rcases List.mem_pair.mp member with rfl | rfl
    · cases inData
    · obtain rfl := Option.some.inj hasHeader
      obtain rfl := List.mem_singleton.mp inData
      rfl
  noWrap := by decide

/-- The offset of the function is 0x180, and the address at which the mapping
from 0x1000 shows it is named after the function. -/
theorem uprobe_address_named_work :
    ∃ final sinfo,
      mapAddrDso workSystem .insertion workSyms (oneLine.addressOf 0x180) =
          .ok (final, some sinfo) ∧
        sinfo.dsoName = some oneLine.name ∧ sinfo.symName = some "work".toList ∧
          sinfo.symOffset = 0 :=
  uprobe_address_named workSystem .insertion
    (fun path => if path = "/a".toList then some workImage else none)
    (.cons oneLine .nil) (List.pairwise_singleton _ _) (by decide : loadFile workSystem
      (some "1000-2000 r-xp 0 8:1 5 /a\n".toList) = .ok workSyms)
    (List.mem_singleton_self _) (by decide) rfl workImage_readable
    (by decide : getElfFuncOffset _ _ "work".toList = 0x180) (by decide)
    (by
      intro value search phdrs headers phdr member _
      obtain rfl := Option.some.inj headers
      obtain rfl : phdr = ⟨ptLoad, 5, 0, 0x3000, 0x1000⟩ := by simpa using member
      unfold LaidOut
      decide)
    (by decide) (by decide) (by decide) (by decide) (by decide)

end Symbols
end EbpfHub
