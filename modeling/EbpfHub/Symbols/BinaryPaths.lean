import EbpfHub.Foundations.Chunks
import EbpfHub.Foundations.ScanLines
import EbpfHub.Symbols.Cache
import EbpfHub.Symbols.Kallsyms

/-!
# The path of a binary to be probed

`resolve_binary_path` of `uprobe_helpers.c` finds the file of a process, of a
library that it has mapped, or of a program in the search path.
-/

namespace EbpfHub
namespace Symbols

open Foundations
open Foundations.Scanf (Directive Item isSpace)

/-! ## The functions -/

/-- What the functions find outside. -/
structure Outside where
  /-- The target of a link, `none` when `readlink` fails. -/
  readlink : Name → Option Name
  /-- The content of a file, `none` when it cannot be opened. -/
  file : Name → Option (List Char)
  /-- What a command writes, `none` when `popen` fails. -/
  popen : Name → Option (List Char)

/-- `proc_pid_exe`. -/
def exePath (pid : Int) : Name :=
  "/proc/".toList ++ (toString pid).toList ++ "/exe".toList

/-- `sizeof(proc_pid_exe)` and `sizeof(proc_pid_maps)`. -/
abbrev procPathSize : Nat := 32

/-- `get_pid_binary_path`, `none` for -1.  `readlink` stores as much of the
target as there is room for. -/
def getPidBinaryPath (outside : Outside) (pid : Int) (pathSz : Nat) : Option Name :=
  if (exePath pid).length ≥ procPathSize then none
  else
    match outside.readlink (exePath pid) with
    | none => none
    | some target =>
        let path := target.take pathSz
        if path.length ≥ pathSz then none else some path

/-- `strrchr`. -/
def strrchr (c : Char) : Name → Option Name
  | [] => none
  | x :: xs =>
      match strrchr c xs with
      | some p => some p
      | none => if x = c then some (x :: xs) else none

/-- `"%*x-%*x %*s %*x %*s %*u %s"`, for a line of the length.  Only the last word
is stored, and no word is longer than the line. -/
def pathFormat (length : Nat) : List Directive :=
  [.integer 16, .literal '-', .integer 16, .space, .word length, .space, .integer 16, .space,
    .word length, .space, .integer 10, .space, .word length]

/-- `path_buf` after `sscanf`, `none` when that does not return one. -/
def scanPath (line : List Char) : Option Name :=
  match Scanf.scan (pathFormat line.length) line with
  | (items, .ok _) =>
      match items.getLast? with
      | some (.text path) => some path
      | _ => none
  | _ => none

/-- The tests of a path in the loop of `get_pid_lib_path`. -/
def isLibrary (lib path : Name) : Bool :=
  match strrchr '/' path with
  | none => false
  | some p =>
      if !"/lib".toList.isPrefixOf p then false
      else if !lib.isPrefixOf (p.drop 4) then false
      else
        match (p.drop 4).drop lib.length with
        | [] => false
        | c :: _ => c = '.' || c = '-'

/-- The characters that `fgets` reads at most into `line_buf`: its size, less the
final zero. -/
def lineBufChars : Nat := 1023

/-- The loop of `get_pid_lib_path`. -/
def libPathLoop (lib : Name) (pathSz : Nat) : Nat → List Char → Option Name
  | 0, _ => none
  | _ + 1, [] => none
  | passes + 1, input =>
      match Chunks.read '\n' lineBufChars input with
      | (chunk, rest) =>
          match scanPath (chunk.takeWhile (· ≠ nul)) with
          | none => libPathLoop lib pathSz passes rest
          | some path =>
              if !isLibrary lib path then libPathLoop lib pathSz passes rest
              else if path.length ≥ pathSz then none
              else some path

/-- `get_pid_lib_path`, `none` for -1.  The loop makes one pass more than there
are characters. -/
def getPidLibPath (outside : Outside) (pid : Int) (lib : Name) (pathSz : Nat) : Option Name :=
  if (mapsPath pid).length ≥ procPathSize then none
  else
    match outside.file (mapsPath pid) with
    | none => none
    | some content => libPathLoop lib pathSz (content.length + 1) content

/-- `fgets` with a buffer of the size, `none` for `NULL`. -/
def fgets (size : Int) (input : List Char) : Option (List Char) :=
  if size ≤ 0 then none
  else if size = 1 then some []
  else
    match input with
    | [] => none
    | c :: rest => some (Chunks.read '\n' (size - 1).toNat (c :: rest)).1

/-- `sizeof(cmd)`. -/
abbrev cmdSize : Nat := 100

/-- `which_program`, `none` for -1.  `fgets` takes the size as an `int`, and the
last character of the string that it stores is cut off. -/
def whichProgram (outside : Outside) (prog : Name) (pathSz : Nat) : Except Fault (Option Name) :=
  let cmd := "which ".toList ++ prog
  if cmd.length ≥ cmdSize then .ok none
  else
    match outside.popen cmd with
    | none => .ok none
    | some output =>
        match fgets (BitVec.ofNat 32 pathSz).toInt output with
        | none => .ok none
        | some stored =>
            let path := stored.takeWhile (· ≠ nul)
            if path = [] then .error .outOfBounds else .ok (some path.dropLast)

/-- `resolve_binary_path`, `none` for -1. -/
def resolveBinaryPath
    (outside : Outside)
    (binary : Name)
    (pid : Int)
    (pathSz : Nat) : Except Fault (Option Name) :=
  if strcmp binary [] = 0 then
    if pid = 0 then .ok none
    else .ok (getPidBinaryPath outside pid pathSz)
  else if pid ≠ 0 then .ok (getPidLibPath outside pid binary pathSz)
  else whichProgram outside binary pathSz

/-! ## Paths of libraries -/

/-- The path is that of a file whose name begins with `lib`, the name of the
library and a dot or a dash. -/
def IsLibraryPath (lib path : Name) : Prop :=
  ∃ directory c rest, path = directory ++ '/' :: ("lib".toList ++ lib ++ c :: rest) ∧
    '/' ∉ "lib".toList ++ lib ++ c :: rest ∧ (c = '.' ∨ c = '-')

theorem strrchr_eq_none_iff {c : Char} {path : Name} : strrchr c path = none ↔ c ∉ path := by
  induction path with
  | nil => exact iff_of_true rfl List.not_mem_nil
  | cons x xs inductionHypothesis =>
      unfold strrchr
      cases later : strrchr c xs with
      | some p =>
          rw [later] at inductionHypothesis
          refine iff_of_false (Option.some_ne_none p) fun absent => ?_
          exact Option.some_ne_none p (inductionHypothesis.mpr fun inTail =>
            absent (List.mem_cons_of_mem _ inTail))
      | none =>
          dsimp only
          have inTail := inductionHypothesis.mp later
          split
          · next same => exact iff_of_false (Option.some_ne_none _) (by simp [same])
          · next different => exact iff_of_true rfl (by simp [inTail, Ne.symm different])

/-- The rest of a path from the last occurrence of a character on. -/
theorem strrchr_eq_some_iff {c : Char} {path p : Name} :
    strrchr c path = some p ↔
      ∃ front tail, path = front ++ c :: tail ∧ c ∉ tail ∧ p = c :: tail := by
  induction path with
  | nil =>
      refine iff_of_false (fun found => by cases found) ?_
      rintro ⟨front, tail, split, -⟩
      simp at split
  | cons x xs inductionHypothesis =>
      unfold strrchr
      cases later : strrchr c xs with
      | some q =>
          rw [later] at inductionHypothesis
          dsimp only
          rw [inductionHypothesis]
          constructor
          · rintro ⟨front, tail, rfl, absent, rfl⟩
            exact ⟨x :: front, tail, rfl, absent, rfl⟩
          · rintro ⟨front, tail, split, absent, rfl⟩
            cases front with
            | nil =>
                obtain ⟨rfl, rfl⟩ := List.cons.inj split
                rw [strrchr_eq_none_iff.mpr absent] at later
                cases later
            | cons y front =>
                obtain ⟨-, rfl⟩ := List.cons.inj split
                exact ⟨front, tail, rfl, absent, rfl⟩
      | none =>
          have noneLater := strrchr_eq_none_iff.mp later
          dsimp only
          split
          · next same =>
              subst same
              rw [Option.some.injEq]
              constructor
              · rintro rfl
                exact ⟨[], xs, rfl, noneLater, rfl⟩
              · rintro ⟨front, tail, split, absent, rfl⟩
                cases front with
                | nil => exact split
                | cons y front =>
                    obtain ⟨-, rfl⟩ := List.cons.inj split
                    exact absurd (by simp) noneLater
          · next different =>
              refine iff_of_false (fun found => by cases found) ?_
              rintro ⟨front, tail, split, -, -⟩
              cases front with
              | nil => exact different (List.cons.inj split).1
              | cons y front =>
                  obtain ⟨-, rfl⟩ := List.cons.inj split
                  exact noneLater (by simp)

/-- The tests of what follows the last slash. -/
theorem isLibrary_of_strrchr
    {lib path p : Name}
    (last : strrchr '/' path = some p) :
    isLibrary lib path = true ↔
      ∃ c rest, p = "/lib".toList ++ (lib ++ c :: rest) ∧ (c = '.' ∨ c = '-') := by
  unfold isLibrary
  rw [last]
  dsimp only
  constructor
  · intro passes
    split at passes
    · cases passes
    · next begins =>
        split at passes
        · cases passes
        · next named =>
            rw [Bool.not_eq_true', Bool.not_eq_false, List.isPrefixOf_iff_prefix] at begins named
            obtain ⟨afterLib, rfl⟩ := begins
            have dropped : ("/lib".toList ++ afterLib).drop 4 = afterLib := rfl
            rw [dropped] at named passes
            obtain ⟨afterName, rfl⟩ := named
            rw [List.drop_left] at passes
            cases afterName with
            | nil => cases passes
            | cons c rest =>
                rw [Bool.or_eq_true, decide_eq_true_iff, decide_eq_true_iff] at passes
                exact ⟨c, rest, rfl, passes⟩
  · rintro ⟨c, rest, rfl, separator⟩
    have dropped : ("/lib".toList ++ (lib ++ c :: rest)).drop 4 = lib ++ c :: rest := rfl
    have begins : "/lib".toList.isPrefixOf ("/lib".toList ++ (lib ++ c :: rest)) = true :=
      List.isPrefixOf_iff_prefix.mpr (List.prefix_append _ _)
    have named : lib.isPrefixOf (lib ++ c :: rest) = true :=
      List.isPrefixOf_iff_prefix.mpr (List.prefix_append _ _)
    rw [begins, dropped, named, List.drop_left]
    simp only [Bool.not_true, Bool.false_eq_true, if_false, Bool.or_eq_true, decide_eq_true_iff]
    exact separator

/-- The loop accepts the paths of files of the library. -/
theorem isLibrary_iff {lib path : Name} : isLibrary lib path = true ↔ IsLibraryPath lib path := by
  have letters : "/lib".toList = '/' :: "lib".toList := rfl
  cases last : strrchr '/' path with
  | none =>
      refine iff_of_false ?_ ?_
      · rw [isLibrary, last]
        exact Bool.false_ne_true
      · rintro ⟨directory, c, rest, rfl, -, -⟩
        exact strrchr_eq_none_iff.mp last (by simp)
  | some p =>
      rw [isLibrary_of_strrchr last]
      obtain ⟨front, tail, rfl, absent, rfl⟩ := strrchr_eq_some_iff.mp last
      constructor
      · rintro ⟨c, rest, same, separator⟩
        rw [letters, List.cons_append] at same
        obtain ⟨-, rfl⟩ := List.cons.inj same
        rw [← List.append_assoc] at absent
        exact ⟨front, c, rest, by rw [List.append_assoc], absent, separator⟩
      · rintro ⟨directory, c, rest, split, noSlash, separator⟩
        have other := strrchr_eq_some_iff.mpr ⟨directory, _, split, noSlash, rfl⟩
        refine ⟨c, rest, ?_, separator⟩
        rw [Option.some.inj (last.symm.trans other), letters, List.append_assoc]
        rfl

/-! ## The lines of a maps file -/

namespace MapsLine

/-- The first word of the name, which is all that the scan stores of it. -/
def firstWord (line : MapsLine) : Name := line.name.takeWhile (!isSpace ·)

/-- The name is one word. -/
def OneWord (line : MapsLine) : Prop := ∀ c ∈ line.name, isSpace c = false

/-- A name of one word is stored whole. -/
theorem OneWord.firstWord_eq {line : MapsLine} (oneWord : line.OneWord) :
    line.firstWord = line.name := by
  refine List.takeWhile_eq_self_iff.mpr fun c member => ?_
  rw [oneWord c member]
  rfl

/-- The characters of a line before its end. -/
def text (line : MapsLine) : List Char := line.write []

theorem write_eq (line : MapsLine) (rest : List Char) : line.write rest = line.text ++ rest := by
  simp only [write, text, List.append_assoc, List.cons_append, List.append_nil]

/-- A line holds only digits, blanks, signs between them and what its texts
hold. -/
theorem notMem_text
    {c : Char}
    (line : MapsLine)
    (noDigit : ∀ {base}, Scanf.isDigit base c = false)
    (noSign : c ∉ ['-', ' ', ':'])
    (perm : c ∉ line.perm)
    (tail : c ∉ line.tail) :
    c ∉ line.text := by
  have digits : ∀ {base} (numeral : Scanf.Numeral base), c ∉ numeral.digits := by
    intro base numeral member
    have isDigit := numeral.valid c member
    rw [noDigit] at isDigit
    cases isDigit
  simp only [List.mem_cons, List.not_mem_nil, or_false, not_or] at noSign
  simp [text, write, digits, perm, tail, noSign]

/-- A line holds no newline. -/
theorem newline_notMem_text (line : MapsLine) : '\n' ∉ line.text := by
  refine line.notMem_text rfl (by decide) (fun member => ?_) fun member => ?_
  · cases line.perm_visible '\n' member
  · exact line.tail_inLine '\n' member rfl

/-- A line holds no zero. -/
theorem nul_notMem_text (line : MapsLine) : nul ∉ line.text :=
  line.notMem_text rfl (by decide) line.perm_clean line.tail_clean

/-- The items of a line before its last word. -/
def frontItems (line : MapsLine) : List Item :=
  [.integer line.startAddr.value, .integer line.endAddr.value, .text line.perm,
    .integer line.fileOff.value, .text (line.devMajor.digits ++ ':' :: line.devMinor.digits),
    .integer line.inode.value]

/-- The scan of a line comes to what follows the inode. -/
theorem scan_pathFormat
    (line : MapsLine)
    {length : Nat}
    (long : line.text.length ≤ length)
    (ending : List Char) :
    Scanf.scan (pathFormat length) (line.text ++ ending) =
      (line.frontItems ++
          (Scanf.scan [.space, .word length] (' ' :: (line.tail ++ ending))).1,
        (Scanf.scan [.space, .word length] (' ' :: (line.tail ++ ending))).2) := by
  have dash : ∀ tail, Scanf.EndsNumeral 16 ('-' :: tail) :=
    Scanf.endsNumeral_of_separator (by decide) 16
  have blank : ∀ base tail, Scanf.EndsNumeral base (' ' :: tail) :=
    Scanf.endsNumeral_of_separator (by decide)
  have spaceStops : ∀ tail, Scanf.Stops (!isSpace ·) (' ' :: tail) := fun _ => rfl
  let device := line.devMajor.digits ++ ':' :: line.devMinor.digits
  have deviceVisible : ∀ c ∈ device, isSpace c = false := by
    intro c member
    rcases List.mem_append.mp member with major | minor
    · exact Scanf.isSpace_of_isDigit (line.devMajor.valid c major)
    · rcases List.mem_cons.mp minor with rfl | inMinor
      · rfl
      · exact Scanf.isSpace_of_isDigit (line.devMinor.valid c inMinor)
  have deviceNonempty : device ≠ [] := by simp [device]
  have shape : line.text ++ ending = line.startAddr.digits ++ '-' :: (line.endAddr.digits ++
      ' ' :: (line.perm ++ ' ' :: (line.fileOff.digits ++ ' ' :: (device ++
        ' ' :: (line.inode.digits ++ ' ' :: (line.tail ++ ending)))))) := by
    simp only [text, write, device, List.append_assoc, List.cons_append, List.append_nil]
  have short : line.perm.length ≤ length ∧ device.length ≤ length := by
    simp only [text, write, List.length_append, List.length_cons, device] at long ⊢
    omega
  have deviceStops : ∀ tail, Scanf.Stops isSpace (device ++ tail) := by
    intro tail
    cases chars : device with
    | nil => exact absurd chars deviceNonempty
    | cons c others => exact deviceVisible c (by simp [chars])
  rw [shape, pathFormat,
    Scanf.scan_of_read (Scanf.read_integer line.startAddr (dash _)),
    Scanf.scan_of_read (Scanf.read_literal '-' _),
    Scanf.scan_of_read (Scanf.read_integer line.endAddr (blank 16 _)),
    Scanf.scan_of_read (Scanf.read_space (line.stops_perm _)),
    Scanf.scan_of_read (Scanf.read_word_of_stops line.perm_ne_nil line.perm_visible short.1
      (spaceStops _)),
    Scanf.scan_of_read (Scanf.read_space (line.fileOff.stops_isSpace _)),
    Scanf.scan_of_read (Scanf.read_integer line.fileOff (blank 16 _)),
    Scanf.scan_of_read (Scanf.read_space (deviceStops _)),
    Scanf.scan_of_read (Scanf.read_word_of_stops deviceNonempty deviceVisible short.2
      (spaceStops _)),
    Scanf.scan_of_read (Scanf.read_space (line.inode.stops_isSpace _)),
    Scanf.scan_of_read (Scanf.read_integer line.inode (blank 10 _))]
  rfl

/-- The first word of the name of a line is scanned, when it has one. -/
theorem scanPath_text
    (line : MapsLine)
    (ending : List Char)
    (blank : ∀ c ∈ ending, isSpace c = true) :
    scanPath (line.text ++ ending) = if line.firstWord = [] then none else some line.firstWord := by
  have long : line.text.length ≤ (line.text ++ ending).length := by
    rw [List.length_append]
    omega
  have scanned := line.scan_pathFormat long ending
  have skipped : ∀ left, (line.tail ++ ending).dropWhile isSpace = left →
      Directive.space.read (' ' :: (line.tail ++ ending)) = .ok ([], left) := by
    rintro left rfl
    rw [Directive.read, List.dropWhile_cons_of_pos (by decide)]
  unfold scanPath
  rw [scanned]
  by_cases unnamed : line.name = []
  · have left : (line.tail ++ ending).dropWhile isSpace = [] := by
      refine List.dropWhile_eq_nil_iff.mpr fun c member => ?_
      rcases List.mem_append.mp member with inTail | atEnd
      · exact List.dropWhile_eq_nil_iff.mp unnamed c inTail
      · exact blank c atEnd
    have noWord : line.firstWord = [] := by rw [firstWord, unnamed, List.takeWhile_nil]
    rw [Scanf.scan_of_read (skipped [] left), if_pos noWord]
    rfl
  · have left : (line.tail ++ ending).dropWhile isSpace = line.name ++ ending := by
      have some : ¬(line.tail.dropWhile isSpace).isEmpty = true := by
        rwa [List.isEmpty_iff]
      rw [List.dropWhile_append, if_neg some, name]
    have parts : line.firstWord ++ line.name.dropWhile (!isSpace ·) = line.name :=
      List.takeWhile_append_dropWhile
    have nonempty : line.firstWord ≠ [] := by
      have first : Scanf.Stops isSpace line.name := Scanf.stops_dropWhile isSpace line.tail
      cases chars : line.name with
      | nil => exact absurd chars unnamed
      | cons c others =>
          rw [chars] at first
          rw [firstWord, chars, List.takeWhile_cons_of_pos (by rw [first]; rfl)]
          exact List.cons_ne_nil _ _
    have visible : ∀ c ∈ line.firstWord, isSpace c = false := by
      intro c member
      have kept := List.mem_takeWhile_imp member
      rwa [Bool.not_eq_true'] at kept
    have short : line.firstWord.length ≤ (line.text ++ ending).length := by
      have inName : line.firstWord.length ≤ line.name.length :=
        (List.takeWhile_sublist _).length_le
      have inTail : line.name.length ≤ line.tail.length := (List.dropWhile_sublist _).length_le
      simp only [text, write, List.length_append, List.length_cons]
      omega
    have ends : Scanf.Stops (!isSpace ·) (line.name.dropWhile (!isSpace ·) ++ ending) := by
      have stops := Scanf.stops_dropWhile (!isSpace ·) line.name
      cases rest : line.name.dropWhile (!isSpace ·) with
      | nil =>
          cases ending with
          | nil => trivial
          | cons c others =>
              change (!isSpace c) = false
              rw [blank c List.mem_cons_self]
              rfl
      | cons c others =>
          rw [rest] at stops
          exact stops
    rw [Scanf.scan_of_read (skipped _ left), if_neg nonempty, ← parts, List.append_assoc,
      Scanf.scan_of_read (Scanf.read_word_of_stops nonempty visible short ends)]
    rfl

theorem text_ne_nil (line : MapsLine) : line.text ≠ [] := by
  simp [text, write]

end MapsLine

/-! ## The loop over the lines -/

/-- What is stored of the first line of a library, if there is room for it. -/
def firstLibrary (lib : Name) (pathSz : Nat) (lines : List MapsLine) : Option Name :=
  (lines.find? fun line => isLibrary lib line.firstWord).bind fun line =>
    if line.firstWord.length ≥ pathSz then none else some line.firstWord

section Loop

variable {lib : Name} {pathSz : Nat}

/-- A pass over a line returns its path, or goes on with the rest. -/
theorem libPathLoop_of_read
    {line : MapsLine}
    {ending input rest : List Char}
    (occupied : input ≠ [])
    (read : Chunks.read '\n' lineBufChars input = (line.text ++ ending, rest))
    (blank : ∀ c ∈ ending, isSpace c = true)
    (clean : nul ∉ ending)
    (passes : Nat) :
    libPathLoop lib pathSz (passes + 1) input =
      if isLibrary lib line.firstWord then
        if line.firstWord.length ≥ pathSz then none else some line.firstWord
      else libPathLoop lib pathSz passes rest := by
  have whole : (line.text ++ ending).takeWhile (· ≠ nul) = line.text ++ ending := by
    refine List.takeWhile_eq_self_iff.mpr fun c member => decide_eq_true ?_
    rintro rfl
    rcases List.mem_append.mp member with inText | atEnd
    · exact line.nul_notMem_text inText
    · exact clean atEnd
  have pass : libPathLoop lib pathSz (passes + 1) input =
      match scanPath (line.text ++ ending) with
      | none => libPathLoop lib pathSz passes rest
      | some path =>
          if !isLibrary lib path then libPathLoop lib pathSz passes rest
          else if path.length ≥ pathSz then none
          else some path := by
    cases input with
    | nil => exact absurd rfl occupied
    | cons first others =>
        rw [libPathLoop, read]
        · dsimp only
          rw [whole]
        · exact List.cons_ne_nil first others
  rw [pass, line.scanPath_text ending blank]
  by_cases noWord : line.firstWord = []
  · have noLibrary : isLibrary lib line.firstWord = false := by
      rw [noWord]
      rfl
    rw [if_pos noWord, noLibrary, if_neg Bool.false_ne_true]
  · rw [if_neg noWord]
    dsimp only
    cases isLibrary lib line.firstWord with
    | true => rfl
    | false => rfl

/-- With a pass more than there are lines, the loop finds the first line of the
library. -/
theorem libPathLoop_of_isMapsFile
    {content : List Char}
    {lines : List MapsLine}
    (file : IsMapsFile content lines)
    (short : ∀ line ∈ lines, line.text.length < lineBufChars)
    {passes : Nat}
    (enough : lines.length < passes) :
    libPathLoop lib pathSz passes content = firstLibrary lib pathSz lines := by
  have found : ∀ (line : MapsLine) (others : List MapsLine),
      firstLibrary lib pathSz (line :: others) =
        if isLibrary lib line.firstWord then
          if line.firstWord.length ≥ pathSz then none else some line.firstWord
        else firstLibrary lib pathSz others := by
    intro line others
    unfold firstLibrary
    rw [List.find?_cons]
    cases isLibrary lib line.firstWord with
    | true => rfl
    | false => rfl
  induction file generalizing passes with
  | nil =>
      obtain ⟨passes, rfl⟩ := Nat.exists_eq_add_one_of_ne_zero (Nat.ne_of_gt enough)
      rfl
  | last line =>
      rw [List.length_singleton] at enough
      obtain ⟨passes, rfl⟩ : ∃ others, passes = others + 1 + 1 := ⟨passes - 2, by omega⟩
      have read : Chunks.read '\n' lineBufChars line.text = (line.text ++ [], []) := by
        rw [List.append_nil]
        exact Chunks.read_of_last line.newline_notMem_text (short line (List.mem_singleton_self _))
      change libPathLoop lib pathSz _ line.text = _
      rw [libPathLoop_of_read line.text_ne_nil read (fun c member => by cases member)
        List.not_mem_nil, found]
      rfl
  | @cons line content lines file inductionHypothesis =>
      rw [List.length_cons] at enough
      obtain ⟨passes, rfl⟩ := Nat.exists_eq_add_one_of_ne_zero (Nat.ne_of_gt
        (Nat.lt_of_le_of_lt (Nat.zero_le _) enough))
      obtain ⟨first, others⟩ := List.forall_mem_cons.mp short
      have read := Chunks.read_of_short line.newline_notMem_text first content
      have blank : ∀ c ∈ ['\n'], isSpace c = true := by
        intro c member
        obtain rfl := List.mem_singleton.mp member
        rfl
      rw [line.write_eq, libPathLoop_of_read (by simp) read blank (by decide), found,
        inductionHypothesis others (Nat.lt_of_succ_lt_succ enough)]

end Loop

/-- The path is that of the first line of the library, and there is room for
it. -/
def IsFirstLibrary
    (lib : Name)
    (pathSz : Nat)
    (pathOf : MapsLine → Name)
    (lines : List MapsLine)
    (path : Name) : Prop :=
  ∃ before line after, lines = before ++ line :: after ∧ pathOf line = path ∧
    IsLibraryPath lib path ∧ (∀ earlier ∈ before, ¬IsLibraryPath lib (pathOf earlier)) ∧
      path.length < pathSz

/-- It does not matter where paths are the same for all lines. -/
theorem IsFirstLibrary.congr
    {lib path : Name}
    {pathSz : Nat}
    {pathOf otherOf : MapsLine → Name}
    {lines : List MapsLine}
    (first : IsFirstLibrary lib pathSz pathOf lines path)
    (same : ∀ line ∈ lines, pathOf line = otherOf line) :
    IsFirstLibrary lib pathSz otherOf lines path := by
  obtain ⟨before, line, after, rfl, rfl, library, others, fits⟩ := first
  refine ⟨before, line, after, rfl, (same line (by simp)).symm, library, ?_, fits⟩
  intro earlier member
  rw [← same earlier (by simp [member])]
  exact others earlier member

/-- The first line of a library, in terms of the lines. -/
theorem firstLibrary_eq_some_iff
    {lib path : Name}
    {pathSz : Nat}
    {lines : List MapsLine} :
    firstLibrary lib pathSz lines = some path ↔
      IsFirstLibrary lib pathSz MapsLine.firstWord lines path := by
  unfold firstLibrary
  constructor
  · intro found
    obtain ⟨line, isFirst, room⟩ := Option.bind_eq_some_iff.mp found
    obtain ⟨isIt, before, after, rfl, others⟩ := List.find?_eq_some_iff_append.mp isFirst
    split at room
    · cases room
    · next fits =>
        obtain rfl := Option.some.inj room
        refine ⟨before, line, after, rfl, rfl, isLibrary_iff.mp isIt, ?_, Nat.lt_of_not_le fits⟩
        intro earlier member library
        have rejected := others earlier member
        rw [isLibrary_iff.mpr library] at rejected
        cases rejected
  · rintro ⟨before, line, after, rfl, rfl, library, others, fits⟩
    have isFirst : (before ++ line :: after).find? (fun line => isLibrary lib line.firstWord) =
        some line := by
      refine List.find?_eq_some_iff_append.mpr ⟨isLibrary_iff.mpr library, before, after, rfl, ?_⟩
      intro earlier member
      rw [Bool.not_eq_true', Bool.eq_false_iff]
      exact fun isIt => others earlier member (isLibrary_iff.mp isIt)
    rw [isFirst, Option.bind_some, if_neg (Nat.not_le_of_lt fits)]

/-! ## Paths in `/proc` -/

/-- The number of a process has ten digits at most. -/
theorem length_toString_le
    {pid : Int}
    (isPid : SymsCache.IsPid pid) :
    (toString pid).toList.length ≤ 10 := by
  obtain ⟨number, rfl⟩ := Int.eq_ofNat_of_zero_le isPid.1.le
  have below : number < 10 ^ 10 := by
    have small := isPid.2
    omega
  have digits : (toString (number : Int)).toList = Nat.toDigits 10 number := by
    change (Nat.repr number).toList = _
    rw [Nat.repr_eq_ofList_toDigits, String.toList_ofList]
  change (toString (number : Int)).toList.length ≤ 10
  rw [digits]
  exact (Nat.length_toDigits_le_iff (by decide) (by decide)).mpr below

theorem length_mapsPath_lt
    {pid : Int}
    (isPid : SymsCache.IsPid pid) :
    (mapsPath pid).length < procPathSize := by
  have digits := length_toString_le isPid
  have size : procPathSize = 32 := rfl
  have front : "/proc/".toList.length = 6 := rfl
  have back : "/maps".toList.length = 5 := rfl
  change ("/proc/".toList ++ (toString pid).toList ++ "/maps".toList).length < procPathSize
  rw [List.length_append, List.length_append, front, back, size]
  omega

theorem length_exePath_lt
    {pid : Int}
    (isPid : SymsCache.IsPid pid) :
    (exePath pid).length < procPathSize := by
  have digits := length_toString_le isPid
  have size : procPathSize = 32 := rfl
  have front : "/proc/".toList.length = 6 := rfl
  have back : "/exe".toList.length = 4 := rfl
  change ("/proc/".toList ++ (toString pid).toList ++ "/exe".toList).length < procPathSize
  rw [List.length_append, List.length_append, front, back, size]
  omega

/-! ## A library of a process -/

/-- In a process with a well-formed maps file of short lines, the path that is
found for the name of a library is the first word of the name in the first line
where this word is the path of a file of the library, if there is room for it.
Where all names are one word, it is the path of the first file of the library that
is mapped. -/
theorem resolve_library_path
    (outside : Outside)
    {lib : Name}
    (named : lib ≠ [])
    {pid : Int}
    (isPid : SymsCache.IsPid pid)
    {content : List Char}
    (opened : outside.file (mapsPath pid) = some content)
    {lines : List MapsLine}
    (file : IsMapsFile content lines)
    (short : ∀ line ∈ lines, line.text.length < lineBufChars)
    (pathSz : Nat) :
    ∃ found, resolveBinaryPath outside lib pid pathSz = .ok found ∧
      (∀ path, found = some path ↔
        IsFirstLibrary lib pathSz MapsLine.firstWord lines path) ∧
      ((∀ line ∈ lines, line.OneWord) →
        ∀ path, found = some path ↔ IsFirstLibrary lib pathSz MapsLine.name lines path) := by
  refine ⟨firstLibrary lib pathSz lines, ?_, fun path => firstLibrary_eq_some_iff, ?_⟩
  · have someone : pid ≠ 0 := isPid.1.ne'
    have loop : libPathLoop lib pathSz (content.length + 1) content =
        firstLibrary lib pathSz lines :=
      libPathLoop_of_isMapsFile file short (Nat.lt_succ_of_le file.length_le)
    rw [resolveBinaryPath, if_neg (mt strcmp_eq_zero_iff.mp named), if_pos someone,
      getPidLibPath, if_neg (Nat.not_le_of_lt (length_mapsPath_lt isPid)), opened]
    exact congrArg Except.ok loop
  · intro oneWord path
    rw [firstLibrary_eq_some_iff]
    exact ⟨fun first => first.congr fun line member => (oneWord line member).firstWord_eq,
      fun first => first.congr fun line member => (oneWord line member).firstWord_eq.symm⟩

/-- A line that maps a library whose name begins with that of another. -/
def cryptLine : MapsLine :=
  { oneLine with
    tail := "/usr/lib/libcrypt.so.1".toList
    tail_inLine := by simp
    tail_clean := by decide }

/-- A line that maps the other. -/
def cLine : MapsLine :=
  { oneLine with
    tail := "/usr/lib/libc-2.31.so".toList
    tail_inLine := by simp
    tail_clean := by decide }

/-- The maps file of a process with both lines. -/
def librariesContent : List Char := cryptLine.write ('\n' :: cLine.write ['\n'])

/-- That process, and a program in the search path. -/
def oneProcess : Outside where
  readlink := fun path => if path = exePath 7 then some "/usr/bin/env".toList else none
  file := fun path => if path = mapsPath 7 then some librariesContent else none
  popen := fun cmd => if cmd = "which sh".toList then some "/bin/sh\n".toList else none

theorem oneWord_of_mem_libraries : ∀ line ∈ [cryptLine, cLine], line.OneWord := by
  have visible : [cryptLine, cLine].all (fun line => line.name.all (!isSpace ·)) = true := by
    decide
  intro line member c inName
  have inLine := List.all_eq_true.mp visible line member
  have kept := List.all_eq_true.mp inLine c inName
  rwa [Bool.not_eq_true'] at kept

/-- The path of the library `c` is that of its file, and not that of `crypt` before
it. -/
theorem isFirstLibrary_cLine :
    IsFirstLibrary ['c'] 64 MapsLine.name [cryptLine, cLine] cLine.name := by
  refine ⟨[cryptLine], cLine, [], rfl, rfl, isLibrary_iff.mp (by decide), ?_, by decide⟩
  intro earlier member library
  obtain rfl := List.mem_singleton.mp member
  have rejected : isLibrary ['c'] cryptLine.name = false := by decide
  rw [isLibrary_iff.mpr library] at rejected
  cases rejected

/-- The library `crypt` is not taken for `c`. -/
theorem resolve_library_path_oneProcess :
    resolveBinaryPath oneProcess ['c'] 7 64 = .ok (some cLine.name) := by
  have opened : oneProcess.file (mapsPath 7) = some librariesContent := by
    unfold oneProcess
    dsimp only
    rw [if_pos rfl]
  obtain ⟨found, result, -, whole⟩ := @resolve_library_path oneProcess ['c']
    (List.cons_ne_nil _ _) 7 ⟨by decide, by decide⟩ librariesContent opened
    [cryptLine, cLine] (.cons cryptLine (.cons cLine .nil)) (by simp [cryptLine, cLine, oneLine,
      lineBufChars, MapsLine.text, MapsLine.write]) 64
  rw [result, (whole oneWord_of_mem_libraries cLine.name).mpr isFirstLibrary_cLine]

/-! ## A program -/

/-- The target of a link is found if there is room for it. -/
theorem getPidBinaryPath_eq
    (outside : Outside)
    {pid : Int}
    (isPid : SymsCache.IsPid pid)
    (pathSz : Nat) :
    getPidBinaryPath outside pid pathSz =
      (outside.readlink (exePath pid)).filter (·.length < pathSz) := by
  rw [getPidBinaryPath, if_neg (Nat.not_le_of_lt (length_exePath_lt isPid))]
  cases outside.readlink (exePath pid) with
  | none => rfl
  | some target =>
      dsimp only
      rcases Nat.lt_or_ge target.length pathSz with fits | long
      · rw [List.take_of_length_le fits.le, if_neg (Nat.not_le_of_lt fits), Option.filter_some,
          if_pos (decide_eq_true fits)]
      · have rejected : ¬decide (target.length < pathSz) = true := by simpa using long
        rw [if_pos (List.length_take_of_le long).ge, Option.filter_some, if_neg rejected]

/-- What is stored of a line, but for its last character, is the line as far as
there is room. -/
theorem dropLast_read
    {line : List Char}
    (inLine : '\n' ∉ line)
    (room : Nat)
    (rest : List Char) :
    ∃ stored left, Chunks.read '\n' (room + 1) (line ++ '\n' :: rest) = (stored, left) ∧
      stored ≠ [] ∧ stored ⊆ line ++ ['\n'] ∧ stored.dropLast = line.take room := by
  rcases Nat.lt_or_ge line.length (room + 1) with short | long
  · refine ⟨_, _, Chunks.read_of_short inLine short rest, by simp, List.Subset.refl _, ?_⟩
    rw [List.dropLast_concat, List.take_of_length_le (Nat.le_of_lt_succ short)]
  · have full : (line.take (room + 1)).length = room + 1 := List.length_take_of_le long
    have inFront : '\n' ∉ line.take (room + 1) := fun member => inLine (List.mem_of_mem_take member)
    have read := Chunks.read_of_long inFront (line.drop (room + 1) ++ '\n' :: rest)
    rw [full, ← List.append_assoc, List.take_append_drop] at read
    refine ⟨_, _, read, ?_, ?_, ?_⟩
    · refine List.ne_nil_of_length_pos ?_
      rw [full]
      exact Nat.succ_pos room
    · exact fun c member => List.mem_append_left _ (List.mem_of_mem_take member)
    · rw [List.dropLast_eq_take, full, List.take_take]
      congr 1
      omega

/-- What `which` writes is found as far as there is room for it. -/
theorem whichProgram_eq
    (outside : Outside)
    {prog line : Name}
    (brief : ("which ".toList ++ prog).length < cmdSize)
    {rest : List Char}
    (output : outside.popen ("which ".toList ++ prog) = some (line ++ '\n' :: rest))
    (inLine : '\n' ∉ line)
    (clean : nul ∉ line)
    {pathSz : Nat}
    (room : 2 ≤ pathSz)
    (fitsInt : pathSz < 2 ^ 31) :
    whichProgram outside prog pathSz = .ok (some (line.take (pathSz - 2))) := by
  have size : (BitVec.ofNat 32 pathSz).toInt = pathSz := by
    rw [BitVec.toInt_eq_toNat_of_lt, BitVec.toNat_ofNat, Nat.mod_eq_of_lt (by omega)]
    rw [BitVec.toNat_ofNat, Nat.mod_eq_of_lt (by omega)]
    omega
  obtain ⟨stored, left, read, occupied, inside, cut⟩ := dropLast_read inLine (pathSz - 2) rest
  have limit : ((pathSz : Int) - 1).toNat = pathSz - 2 + 1 := by omega
  have reads : fgets (pathSz : Int) (line ++ '\n' :: rest) = some stored := by
    have more : ¬(pathSz : Int) ≤ 0 ∧ ¬(pathSz : Int) = 1 := by omega
    cases input : line ++ '\n' :: rest with
    | nil => simp at input
    | cons c others =>
        rw [fgets, if_neg more.1, if_neg more.2, limit, ← input, read]
  have whole : stored.takeWhile (· ≠ nul) = stored := by
    refine List.takeWhile_eq_self_iff.mpr fun c member => decide_eq_true fun same => ?_
    rcases List.mem_append.mp (inside (same ▸ member)) with inText | atEnd
    · exact clean inText
    · cases List.mem_singleton.mp atEnd
  unfold whichProgram
  dsimp only
  rw [if_neg (Nat.not_le_of_lt brief), output]
  dsimp only
  rw [size, reads]
  dsimp only
  rw [whole, if_neg occupied, cut]

/-- The target of the link to the program of a process is found if there is room
for it.  Of a program in the search path, what is found is what `which` writes as
far as there is room for it, and this counts as success however much is
missing. -/
theorem resolve_program_path
    (outside : Outside)
    {pid : Int}
    (isPid : SymsCache.IsPid pid)
    {prog line : Name}
    (named : prog ≠ [])
    (brief : ("which ".toList ++ prog).length < cmdSize)
    {rest : List Char}
    (output : outside.popen ("which ".toList ++ prog) = some (line ++ '\n' :: rest))
    (inLine : '\n' ∉ line)
    (clean : nul ∉ line)
    {pathSz : Nat}
    (room : 2 ≤ pathSz)
    (fitsInt : pathSz < 2 ^ 31) :
    resolveBinaryPath outside [] pid pathSz =
        .ok ((outside.readlink (exePath pid)).filter (·.length < pathSz)) ∧
      resolveBinaryPath outside prog 0 pathSz = .ok (some (line.take (pathSz - 2))) ∧
      (resolveBinaryPath outside prog 0 pathSz = .ok (some line) ↔ line.length + 2 ≤ pathSz) := by
  have found : resolveBinaryPath outside prog 0 pathSz =
      .ok (some (line.take (pathSz - 2))) := by
    rw [resolveBinaryPath, if_neg (mt strcmp_eq_zero_iff.mp named), if_neg (not_not.mpr rfl)]
    exact whichProgram_eq outside brief output inLine clean room fitsInt
  refine ⟨?_, found, ?_⟩
  · rw [resolveBinaryPath, if_pos (strcmp_self []), if_neg isPid.1.ne',
      getPidBinaryPath_eq outside isPid]
  · rw [found, Except.ok.injEq, Option.some.injEq, List.take_eq_self_iff]
    omega

/-- With a buffer of eight characters the program `/bin/sh` is found as
`/bin/s`. -/
theorem resolve_program_path_oneProcess :
    resolveBinaryPath oneProcess [] 7 8 =
        .ok ((oneProcess.readlink (exePath 7)).filter (·.length < 8)) ∧
      resolveBinaryPath oneProcess "sh".toList 0 8 = .ok (some ("/bin/sh".toList.take (8 - 2))) ∧
      (resolveBinaryPath oneProcess "sh".toList 0 8 = .ok (some "/bin/sh".toList) ↔
        "/bin/sh".toList.length + 2 ≤ 8) :=
  resolve_program_path oneProcess ⟨by decide, by decide⟩ (by decide) (by decide)
    (by decide : oneProcess.popen ("which ".toList ++ "sh".toList) =
      some ("/bin/sh".toList ++ '\n' :: [])) (by decide) (by decide) (by decide) (by decide)

end Symbols
end EbpfHub
