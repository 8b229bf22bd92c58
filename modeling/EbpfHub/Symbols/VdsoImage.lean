import EbpfHub.Symbols.Attribution

/-!
# The image of the vDSO

`create_tmp_vdso_image` of `trace_helpers.c` looks for the vDSO in the maps file
of the process that runs it, and writes the memory there to a file.  Where the
process has no vDSO, it writes the memory of the last mapping.
-/

namespace EbpfHub
namespace Symbols

open Foundations
open Foundations.Scanf (Directive isSpace)

/-! ## The function -/

/-- `"%llx-%llx %*s %*x %*x:%*x %*u%[^\\n]"`.  No word is longer than the file. -/
def vdsoFormat (length : Nat) : List Directive :=
  [.integer 16, .literal '-', .integer 16, .space, .word length, .space, .integer 16, .space,
    .integer 16, .literal ':', .integer 16, .space, .integer 10, .line]

/-- The memory from `start_addr` to `end_addr`. -/
structure Region where
  startAddr : U64
  endAddr : U64
  deriving DecidableEq

/-- What `fscanf` makes of the input at a pass of the loop. -/
inductive RegionScanned
  /-- `EOF` at the end of the file. -/
  | done
  /-- All three items that are stored, and the rest of the input. -/
  | line (region : Region) (buf : List Char) (rest : List Char)
  /-- The rest of a line and the zero behind it are longer than `buf`. -/
  | overflow
  /-- Fewer items. -/
  | failed

/-- The call of `fscanf` in `create_tmp_vdso_image`. -/
def scanRegion (input : List Char) : RegionScanned :=
  match Scanf.scan (vdsoFormat input.length) input with
  | ([], .error .eof) => .done
  | ([.integer startAddr, .integer endAddr, _, _, _, _, _, .text buf], .ok rest) =>
      if buf.length < pathMax then .line ⟨startAddr, endAddr⟩ buf rest else .overflow
  | _ => .failed

/-- How the loop ends. -/
inductive RegionFound
  /-- At a line that cannot be scanned. -/
  | failed
  /-- At a line that overflows the buffer. -/
  | overflow
  /-- With the region, `none` where the addresses have no value yet. -/
  | region (region : Option Region)
  deriving DecidableEq

/-- The loop, which makes one pass more than there are lines. -/
def findVdso : Nat → List Char → Option Region → RegionFound
  | 0, _, _ => .failed
  | passes + 1, input, region =>
      match scanRegion input with
      | .done => .region region
      | .failed => .failed
      | .overflow => .overflow
      | .line region buf rest =>
          if !isFileBacked (nameIn buf) then findVdso passes rest (some region)
          else if isVdso (nameIn buf) then .region (some region)
          else findVdso passes rest (some region)

/-- The memory of a process: the byte at an address, `none` where it cannot be
read. -/
abbrev Memory := U64 → Option (BitVec 8)

/-- `sz`. -/
def Region.size (region : Region) : U64 := region.endAddr - region.startAddr

/-- What `memcpy` copies from the region, `none` if it cannot read all of it. -/
def Memory.read (memory : Memory) (region : Region) : Option (List (BitVec 8)) :=
  (List.range region.size.toNat).mapM fun i => memory (region.startAddr + BitVec.ofNat 64 i)

/-- What the calls in the function find. -/
structure ImageCalls where
  /-- The content of the maps file, `none` when it cannot be opened. -/
  maps : Option (List Char)
  memory : Memory
  /-- `malloc` succeeds. -/
  malloc : U64 → Bool
  /-- `mkostemp` succeeds. -/
  mkostemp : Bool
  /-- The number of bytes that `write` writes, `none` for -1. -/
  write : U64 → Option Nat

/-- What the function returns, or why it does not. -/
inductive TmpImage
  /-- -1. -/
  | failed
  /-- A descriptor of a file with these bytes. -/
  | written (bytes : List (BitVec 8))
  /-- The size is computed of addresses without a value. -/
  | undefined
  /-- A line overflows the buffer. -/
  | overflow
  /-- `memcpy` reads memory that cannot be read. -/
  | unreadable
  deriving DecidableEq

/-- `create_tmp_vdso_image`.  A number of bytes that is too small counts as a
success of `write`.  Whether the file can be unlinked changes nothing but a
message. -/
def createTmpVdsoImage (calls : ImageCalls) : TmpImage :=
  match calls.maps with
  | none => .failed
  | some content =>
      match findVdso (content.length + 1) content none with
      | .failed => .failed
      | .overflow => .overflow
      | .region none => .undefined
      | .region (some region) =>
          if !calls.malloc region.size then .failed
          else
            match calls.memory.read region with
            | none => .unreadable
            | some image =>
                if !calls.mkostemp then .failed
                else
                  match calls.write region.size with
                  | none => .failed
                  | some count => .written (image.take count)

/-! ## The lines of the maps file -/

namespace MapsLine

/-- The memory of the line. -/
def region (line : MapsLine) : Region := ⟨line.map.startAddr, line.map.endAddr⟩

/-- The line is that of the vDSO. -/
def IsVdsoLine (line : MapsLine) : Prop := line.name = "[vdso]".toList

instance (line : MapsLine) : Decidable line.IsVdsoLine :=
  inferInstanceAs (Decidable (_ = _))

end MapsLine

/-- A line is read back behind the end of the line before it. -/
theorem scanRegion_write
    (line : MapsLine)
    {rest : List Char}
    (ends : Scanf.Stops (· ≠ '\n') rest)
    (front : List Char)
    (blank : ∀ c ∈ front, isSpace c = true) :
    scanRegion (front ++ line.write rest) =
      if line.Fits then .line line.region (' ' :: line.tail) rest else .overflow := by
  have short : line.perm.length ≤ (front ++ line.write rest).length := by
    simp only [MapsLine.write, List.length_append, List.length_cons]
    omega
  have skipped : (Directive.integer 16).read (front ++ line.write rest) =
      (Directive.integer 16).read (line.write rest) := by
    unfold Directive.read
    rw [List.dropWhile_append_of_pos blank]
  have scanned := line.scan_write ends short
  unfold scanRegion
  generalize (front ++ line.write rest).length = length at scanned ⊢
  rw [vdsoFormat, Scanf.scan, skipped]
  rw [Scanf.scan] at scanned
  rw [scanned]
  rfl

/-! ## The loop -/

/-- The region that the loop over the lines leaves. -/
def findRegion : List MapsLine → Option Region → RegionFound
  | [], region => .region region
  | line :: others, _ =>
      if ¬line.Fits then .overflow
      else if line.IsVdsoLine then .region (some line.region)
      else findRegion others (some line.region)

/-- A pass over a line takes its memory, and is the last at the line of the
vDSO. -/
theorem findVdso_write
    (line : MapsLine)
    {rest : List Char}
    (ends : Scanf.Stops (· ≠ '\n') rest)
    (front : List Char)
    (blank : ∀ c ∈ front, isSpace c = true)
    (passes : Nat)
    (region : Option Region) :
    findVdso (passes + 1) (front ++ line.write rest) region =
      if ¬line.Fits then .overflow
      else if line.IsVdsoLine then .region (some line.region)
      else findVdso passes rest (some line.region) := by
  rw [findVdso, scanRegion_write line ends front blank]
  by_cases fits : line.Fits
  · rw [if_pos fits, if_neg (not_not.mpr fits)]
    dsimp only
    rw [line.nameIn_tail]
    by_cases isIt : line.IsVdsoLine
    · have backed : isFileBacked line.name = true := by
        rw [isIt]
        decide
      have vdso : isVdso line.name = true := decide_eq_true isIt
      rw [backed, vdso, if_pos isIt]
      rfl
    · have other : isVdso line.name = false := decide_eq_false isIt
      rw [other, if_neg isIt, if_neg Bool.false_ne_true, ite_self]
  · rw [if_neg fits, if_pos fits]

/-- With a pass more than there are lines, the loop is one over the lines. -/
theorem findVdso_of_isMapsFile
    {content : List Char}
    {lines : List MapsLine}
    (file : IsMapsFile content lines)
    {passes : Nat}
    (enough : lines.length < passes)
    (front : List Char)
    (blank : ∀ c ∈ front, isSpace c = true)
    (region : Option Region) :
    findVdso passes (front ++ content) region = findRegion lines region := by
  have atEnd : ∀ passes front (region : Option Region), (∀ c ∈ front, isSpace c = true) →
      findVdso (passes + 1) (front ++ []) region = .region region := by
    intro passes front region blank
    have ended : scanRegion (front ++ []) = .done := by
      rw [List.append_nil, scanRegion, vdsoFormat, Scanf.scan, Directive.read,
        List.dropWhile_eq_nil_iff.mpr blank]
    rw [findVdso, ended]
  induction file generalizing passes front region with
  | nil =>
      obtain ⟨passes, rfl⟩ := Nat.exists_eq_add_one_of_ne_zero (Nat.ne_of_gt enough)
      exact atEnd passes front region blank
  | last line =>
      rw [List.length_singleton] at enough
      obtain ⟨passes, rfl⟩ : ∃ others, passes = others + 1 + 1 := ⟨passes - 2, by omega⟩
      have rest := atEnd passes [] (some line.region) fun _ member => by cases member
      rw [List.nil_append] at rest
      rw [@findVdso_write line [] trivial front blank, rest]
      rfl
  | @cons line content lines file inductionHypothesis =>
      rw [List.length_cons] at enough
      obtain ⟨passes, rfl⟩ := Nat.exists_eq_add_one_of_ne_zero (Nat.ne_of_gt
        (Nat.lt_of_le_of_lt (Nat.zero_le _) enough))
      have newline : ∀ c ∈ ['\n'], isSpace c = true := by
        intro c member
        obtain rfl := List.mem_singleton.mp member
        rfl
      have rest := inductionHypothesis (Nat.lt_of_succ_lt_succ enough) ['\n'] newline
        (some line.region)
      rw [List.singleton_append] at rest
      rw [@findVdso_write line ('\n' :: content) rfl front blank, rest]
      rfl

/-- The region is that of the first line of the vDSO or, where there is none, of
the last line, and the lines up to it have their place in the buffer. -/
def IsImageRegion (lines : List MapsLine) (region : Region) : Prop :=
  ∃ before line after, lines = before ++ line :: after ∧ line.region = region ∧
    (∀ earlier ∈ before, earlier.Fits ∧ ¬earlier.IsVdsoLine) ∧ line.Fits ∧
      (line.IsVdsoLine ∨ after = [])

theorem isImageRegion_cons_iff
    {line : MapsLine}
    {others : List MapsLine}
    {region : Region} :
    IsImageRegion (line :: others) region ↔
      line.Fits ∧ (line.region = region ∧ (line.IsVdsoLine ∨ others = []) ∨
        ¬line.IsVdsoLine ∧ IsImageRegion others region) := by
  constructor
  · rintro ⟨before, found, after, split, isRegion, earlier, fits, kind⟩
    cases before with
    | nil =>
        obtain ⟨rfl, rfl⟩ := List.cons.inj split
        exact ⟨fits, .inl ⟨isRegion, kind⟩⟩
    | cons first before =>
        obtain ⟨rfl, rfl⟩ := List.cons.inj split
        obtain ⟨here, later⟩ := List.forall_mem_cons.mp earlier
        exact ⟨here.1, .inr ⟨here.2, before, found, after, rfl, isRegion, later, fits, kind⟩⟩
  · rintro ⟨fits, ⟨isRegion, kind⟩ |
      ⟨other, before, found, after, rfl, isRegion, later, room, kind⟩⟩
    · exact ⟨[], line, others, rfl, isRegion, by simp, fits, kind⟩
    · exact ⟨line :: before, found, after, rfl, isRegion,
        List.forall_mem_cons.mpr ⟨⟨fits, other⟩, later⟩, room, kind⟩

/-- The loop leaves this region, or the one that it had before when there are no
lines. -/
theorem findRegion_eq_region_iff
    {lines : List MapsLine}
    {region : Option Region}
    {found : Region} :
    findRegion lines region = .region (some found) ↔
      IsImageRegion lines found ∨ lines = [] ∧ region = some found := by
  induction lines generalizing region with
  | nil =>
      have nothing : ¬IsImageRegion [] found := by
        rintro ⟨before, line, after, split, -⟩
        simp at split
      simp [findRegion, nothing]
  | cons line others inductionHypothesis =>
      rw [findRegion, isImageRegion_cons_iff, or_iff_left (by simp)]
      by_cases fits : line.Fits
      · rw [if_neg (not_not.mpr fits), and_iff_right fits]
        by_cases isVdso : line.IsVdsoLine
        · simp [isVdso]
        · rw [if_neg isVdso, inductionHypothesis, Option.some.injEq, and_comm (a := others = []),
            or_comm]
          simp [isVdso]
      · simp [fits]

/-- In a process with a well-formed maps file, the file that the function returns
holds the memory of the first line of the vDSO, as far as `write` writes it;
where there is no such line, it holds that of the last line, although the process
has no vDSO.  The function reads memory that cannot be read exactly when that
region is not all readable. -/
theorem tmp_image_is_vdso_or_last
    (calls : ImageCalls)
    {content : List Char}
    {lines : List MapsLine}
    (file : IsMapsFile content lines)
    (opened : calls.maps = some content) :
    (∀ bytes, createTmpVdsoImage calls = .written bytes ↔
      ∃ region image count, IsImageRegion lines region ∧ calls.malloc region.size = true ∧
        calls.memory.read region = some image ∧ calls.mkostemp = true ∧
          calls.write region.size = some count ∧ bytes = image.take count) ∧
      (createTmpVdsoImage calls = .unreadable ↔
        ∃ region, IsImageRegion lines region ∧ calls.malloc region.size = true ∧
          calls.memory.read region = none) := by
  have loop : findVdso (content.length + 1) content none = findRegion lines none :=
    findVdso_of_isMapsFile file (Nat.lt_succ_of_le file.length_le) []
      (fun _ member => by cases member) none
  have isRegion : ∀ region, findRegion lines none = .region (some region) ↔
      IsImageRegion lines region := by
    intro region
    rw [findRegion_eq_region_iff, or_iff_left (by simp)]
  simp only [← isRegion]
  unfold createTmpVdsoImage
  rw [opened]
  dsimp only
  rw [loop]
  cases findRegion lines none with
  | failed => simp
  | overflow => simp
  | region taken =>
      cases taken with
      | none => simp
      | some region =>
          simp only [RegionFound.region.injEq, Option.some.injEq, exists_eq_left',
            exists_and_left]
          cases calls.malloc region.size with
          | false => simp
          | true =>
              cases calls.memory.read region with
              | none => simp
              | some image =>
                  cases calls.mkostemp with
                  | false => simp
                  | true =>
                      cases calls.write region.size with
                      | none => simp
                      | some count => simp [eq_comm]

/-- `1000-1004 r-xp 0 8:1 5 /a`. -/
def shortLine : MapsLine :=
  { oneLine with
    endAddr := ⟨"1004".toList, by decide, List.all_eq_true.mp (by decide), by decide⟩ }

/-- A process with this mapping and no vDSO, for which `write` writes three bytes
only. -/
def shortCalls : ImageCalls where
  maps := some "1000-1004 r-xp 0 8:1 5 /a\n".toList
  memory := fun addr => if addr < 0x2000 then some (addr.setWidth 8) else none
  malloc := fun _ => true
  mkostemp := true
  write := fun _ => some 3

/-- The file holds the first three bytes of the mapping. -/
theorem tmp_image_is_vdso_or_last_shortLine :
    createTmpVdsoImage shortCalls = .written [0, 1, 2] :=
  ((tmp_image_is_vdso_or_last shortCalls (.cons shortLine .nil) rfl).1 [0, 1, 2]).mpr
    ⟨⟨0x1000, 0x1004⟩, [0, 1, 2, 3], 3, ⟨[], shortLine, [], rfl, rfl, by simp, by decide,
      .inr rfl⟩, rfl, by decide, rfl, rfl, rfl⟩

end Symbols
end EbpfHub
