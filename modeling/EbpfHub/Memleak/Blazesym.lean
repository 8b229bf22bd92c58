import EbpfHub.Memleak.LibraryScan
import EbpfHub.Memleak.Listing

/-!
# The listing with blazesym

Built with `USE_BLAZESYM`, `memleak.c` has the symbols of all addresses of a
stack found at once and prints them itself.  It shows the same stacks as the
build without, but leaves out the frames of a manual stack that lie in system
libraries or in the standard library of C++.
-/

namespace EbpfHub
namespace Memleak

open Symbols (Name SymInfo)

/-! ## The functions -/

/-- `struct blaze_sym`, as far as it is read. -/
structure BlazeSym where
  name : Option Name
  offset : U64
  moduleName : Option Name
  file : Option Name
  line : BitVec 32

/-- `is_system_library`. -/
def isSystemLibrary : Option Name → Bool
  | none => true
  | some moduleName =>
      ["/lib/", "/usr/lib/", "linux-vdso", "linux-vsyscall", "[vdso]", "[vsyscall]"].any
        fun part => strstr moduleName part.toList

/-- `is_cpp_stdlib_symbol`. -/
def isCppStdlibSymbol : Option Name → Bool
  | none => true
  | some name =>
      (["std::", "__cxxabiv1::", "_ZSt", "_ZNSt", "_ZTV", "_ZTI", "_ZNKSt", "_GLOBAL__"].any
        fun front => front.toList.isPrefixOf name) ||
      ["ostream", "istream", "basic_"].any fun part => strstr name part.toList

/-- A frame that is printed, with its index. -/
inductive BlazeFrame
  /-- `"\t%zu [<%016lx>] <null sym>\n"`. -/
  | null (frame : Nat) (addr : U64)
  /-- `"\t%zu [<%016lx>] %s+0x%zx"`, and `" %s:%u"` for a known place. -/
  | named (frame : Nat) (addr : U64) (name : Name) (offset : U64) (loc : Option (Name × BitVec 32))

/-- A line that is printed for a manual stack. -/
inductive BlazeLine
  | callStack
  | frame (printed : BlazeFrame)
  | noSymbolsResolved

/-- The place that is printed with a symbol. -/
def BlazeSym.loc (sym : BlazeSym) : Option (Name × BitVec 32) :=
  let loc :=
    if sym.file.any (· ≠ []) then sym.file
    else if sym.moduleName.any (· ≠ []) then sym.moduleName
    else none
  if sym.line ≠ 0 then loc.map (·, sym.line) else none

section Printer

/-! `cxaDemangle` is `__cxa_demangle`, `none` for a status other than zero, and
`symbolize` is `blaze_symbolize_process_abs_addrs`, `none` for `NULL`. -/

variable (cxaDemangle : Name → Option Name) (symbolize : List U64 → Option (List BlazeSym))

/-- `demangle_symbol`. -/
def demangleSymbol (name : Name) : Name := (cxaDemangle name).getD name

/-- `print_stack_frame_by_blazesym`. -/
def printStackFrameByBlazesym (frame : Nat) (addr : U64) (sym : Option BlazeSym) : BlazeFrame :=
  match sym with
  | none => .null frame addr
  | some sym =>
      match sym.name with
      | none => .null frame addr
      | some name => .named frame addr (demangleSymbol cxaDemangle name) sym.offset sym.loc

/-- The loop of `print_stack_frames_by_blazesym`. -/
def blazeFrameLoop (stack : StackWords) :
    List (Fin perfMaxStackDepth) → List BlazeSym → List BlazeFrame
  | [], _ => []
  | _ :: _, [] => []
  | j :: rest, sym :: syms =>
      let addr := stack j
      if addr = 0 then []
      else if sym.name = none then
        printStackFrameByBlazesym cxaDemangle j addr none :: blazeFrameLoop stack rest syms
      else printStackFrameByBlazesym cxaDemangle j addr (some sym) :: blazeFrameLoop stack rest syms

/-- `print_stack_frames_by_blazesym`. -/
def printStackFramesByBlazesym (stack : StackWords) : List BlazeFrame :=
  match symbolize (List.ofFn stack) with
  | none => []
  | some syms => blazeFrameLoop cxaDemangle stack (List.finRange perfMaxStackDepth) syms

/-- The loop of `print_manual_stack_frames_blazesym`. -/
def blazeManualLoop (manualStack : ManualStack) (cnt : Int) :
    List (Fin maxManualStackDepth) → List BlazeSym → Nat → List BlazeFrame
  | [], _, _ => []
  | _ :: _, [], _ => []
  | j :: rest, sym :: syms, frameIdx =>
      if (j.val : Int) < cnt then
        let addr := manualStack j
        if addr = 0 then []
        else if sym.name = none then blazeManualLoop manualStack cnt rest syms frameIdx
        else if isSystemLibrary sym.moduleName then
          blazeManualLoop manualStack cnt rest syms frameIdx
        else if isCppStdlibSymbol sym.name then
          blazeManualLoop manualStack cnt rest syms frameIdx
        else
          printStackFrameByBlazesym cxaDemangle frameIdx addr (some sym) ::
            blazeManualLoop manualStack cnt rest syms (frameIdx + 1)
      else []

/-- `print_manual_stack_frames_blazesym`. -/
def printManualStackFramesBlazesym (manualStack : ManualStack) (cnt : Int) : List BlazeLine :=
  match symbolize (manualFrames manualStack cnt) with
  | none => []
  | some syms =>
      let printed := blazeManualLoop cxaDemangle manualStack cnt
        (List.finRange maxManualStackDepth) syms 0
      .callStack :: printed.map .frame ++ if printed = [] then [.noSymbolsResolved] else []

end Printer

/-! ## The frames of a manual stack -/

/-- The address and the index of a frame. -/
def BlazeFrame.place : BlazeFrame → U64 × Nat
  | .null frame addr => (addr, frame)
  | .named frame addr _ _ _ => (addr, frame)

/-- The frame that a line is about, if any. -/
def BlazeLine.place : BlazeLine → Option (U64 × Nat)
  | .callStack => none
  | .frame printed => some printed.place
  | .noSymbolsResolved => none

/-- The frame that a line of the other build is about, if any. -/
def StackLine.place : StackLine → Option (U64 × Nat)
  | .callStack => none
  | .frame frameIdx addr _ => some (addr, frameIdx)
  | .noSymbolsResolved => none

/-- Neither `is_system_library` nor `is_cpp_stdlib_symbol` takes the symbol for one of
a library.  They do for a symbol without a module or a name. -/
def BlazeSym.isUser (sym : BlazeSym) : Bool :=
  !isSystemLibrary sym.moduleName && !isCppStdlibSymbol sym.name

theorem BlazeSym.name_isSome_of_isUser
    {sym : BlazeSym}
    (user : sym.isUser = true) :
    sym.name.isSome = true := by
  cases name : sym.name with
  | none => simp [isUser, name, isCppStdlibSymbol] at user
  | some name => rfl

@[simp] theorem place_printStackFrameByBlazesym
    (cxaDemangle : Name → Option Name)
    (frame : Nat)
    (addr : U64)
    (sym : Option BlazeSym) :
    (printStackFrameByBlazesym cxaDemangle frame addr sym).place = (addr, frame) := by
  cases sym with
  | none => rfl
  | some sym =>
      unfold printStackFrameByBlazesym
      dsimp only
      split
      · rfl
      · rfl

/-- The slots of a manual stack that its count covers. -/
def coveredSlots (cnt : Int) (slots : List (Fin maxManualStackDepth)) :
    List (Fin maxManualStackDepth) :=
  slots.filter fun i => (i.val : Int) < cnt

/-- Beyond the count no slot is covered. -/
theorem coveredSlots_cons_of_not_lt
    {cnt : Int}
    {i : Fin maxManualStackDepth}
    {rest : List (Fin maxManualStackDepth)}
    (increasing : (i :: rest).Pairwise (· < ·))
    (notBelow : ¬(i.val : Int) < cnt) :
    coveredSlots cnt (i :: rest) = [] := by
  refine List.filter_eq_nil_iff.mpr fun j member => ?_
  rw [decide_eq_true_iff]
  rcases List.mem_cons.mp member with rfl | later
  · exact notBelow
  · have order : i.val < j.val := (List.pairwise_cons.mp increasing).1 j later
    omega

theorem coveredSlots_cons_of_lt
    {cnt : Int}
    {i : Fin maxManualStackDepth}
    (below : (i.val : Int) < cnt)
    (rest : List (Fin maxManualStackDepth)) :
    coveredSlots cnt (i :: rest) = i :: coveredSlots cnt rest :=
  List.filter_cons_of_pos (by simpa using below)

section Words

variable {manualStack : ManualStack} {i : Fin maxManualStackDepth}

/-- The words of slots before the first that is zero. -/
def visitedWords (manualStack : ManualStack) (slots : List (Fin maxManualStackDepth)) :
    List U64 :=
  (slots.map manualStack).takeWhile (· ≠ 0)

theorem visitedWords_cons_of_zero
    (zero : manualStack i = 0)
    (slots : List (Fin maxManualStackDepth)) :
    visitedWords manualStack (i :: slots) = [] :=
  List.takeWhile_cons_of_neg (by simp [zero])

theorem visitedWords_cons_of_ne
    (nonzero : manualStack i ≠ 0)
    (slots : List (Fin maxManualStackDepth)) :
    visitedWords manualStack (i :: slots) = manualStack i :: visitedWords manualStack slots :=
  List.takeWhile_cons_of_pos (by simpa using nonzero)

/-- The words whose answers are kept. -/
def wordsWith (keeps : α → Bool) (words : List U64) (answers : List α) : List U64 :=
  ((words.zip answers).filter fun entry => keeps entry.2).map Prod.fst

variable {keeps : α → Bool} {answer : α}

theorem wordsWith_cons_of_kept
    (kept : keeps answer = true)
    (word : U64)
    (words : List U64)
    (answers : List α) :
    wordsWith keeps (word :: words) (answer :: answers) =
      word :: wordsWith keeps words answers := by
  rw [wordsWith, List.zip_cons_cons, List.filter_cons, if_pos kept, List.map_cons, wordsWith]

theorem wordsWith_cons_of_dropped
    (dropped : keeps answer = false)
    (word : U64)
    (words : List U64)
    (answers : List α) :
    wordsWith keeps (word :: words) (answer :: answers) = wordsWith keeps words answers := by
  rw [wordsWith, List.zip_cons_cons, List.filter_cons, if_neg (ne_true_of_eq_false dropped),
    wordsWith]

end Words

/-- The loop with blazesym prints the frames whose symbols are kept, numbered one
after the other. -/
theorem places_blazeManualLoop
    (cxaDemangle : Name → Option Name)
    (manualStack : ManualStack)
    (cnt : Int)
    {slots : List (Fin maxManualStackDepth)}
    (increasing : slots.Pairwise (· < ·))
    (syms : List BlazeSym)
    (frameIdx : Nat) :
    (blazeManualLoop cxaDemangle manualStack cnt slots syms frameIdx).map BlazeFrame.place =
      (wordsWith BlazeSym.isUser (visitedWords manualStack (coveredSlots cnt slots))
        syms).zipIdx frameIdx := by
  induction slots generalizing syms frameIdx with
  | nil => rfl
  | cons i rest inductionHypothesis =>
      have restIncreasing := (List.pairwise_cons.mp increasing).2
      cases syms with
      | nil =>
          rw [wordsWith, List.zip_nil_right]
          rfl
      | cons sym syms =>
          by_cases below : (i.val : Int) < cnt
          · rw [coveredSlots_cons_of_lt below, blazeManualLoop, if_pos below]
            dsimp only
            by_cases zero : manualStack i = 0
            · rw [if_pos zero, visitedWords_cons_of_zero zero]
              rfl
            · rw [if_neg zero, visitedWords_cons_of_ne zero]
              cases user : sym.isUser with
              | true =>
                  have named := BlazeSym.name_isSome_of_isUser user
                  have unnamed : ¬sym.name = none := by
                    intro missing
                    rw [missing] at named
                    cases named
                  rw [wordsWith_cons_of_kept user, List.zipIdx_cons,
                    ← inductionHypothesis restIncreasing]
                  rw [BlazeSym.isUser, Bool.and_eq_true, Bool.not_eq_true',
                    Bool.not_eq_true'] at user
                  rw [if_neg unnamed, if_neg (ne_true_of_eq_false user.1),
                    if_neg (ne_true_of_eq_false user.2), List.map_cons,
                    place_printStackFrameByBlazesym]
              | false =>
                  rw [wordsWith_cons_of_dropped user, ← inductionHypothesis restIncreasing]
                  split
                  · rfl
                  · split
                    · rfl
                    · split
                      · rfl
                      · next outside plain => simp [BlazeSym.isUser, outside, plain] at user
          · rw [coveredSlots_cons_of_not_lt increasing below, blazeManualLoop, if_neg below]
            rfl

/-- What `syms__map_addr_dso` answers to addresses in turn. -/
def answersOf (mapAddrDso : σ → U64 → σ × Option SymInfo) : σ → List U64 → List (Option SymInfo)
  | _, [] => []
  | syms, addr :: rest =>
      match mapAddrDso syms addr with
      | (syms, sinfo) => sinfo :: answersOf mapAddrDso syms rest

theorem length_answersOf
    (mapAddrDso : σ → U64 → σ × Option SymInfo)
    (syms : σ)
    (addrs : List U64) :
    (answersOf mapAddrDso syms addrs).length = addrs.length := by
  induction addrs generalizing syms with
  | nil => rfl
  | cons addr rest inductionHypothesis =>
      rw [answersOf, List.length_cons, inductionHypothesis, List.length_cons]

/-- The loop of the other build prints the frames that are found, numbered one after
the other. -/
theorem places_frameLoop
    (mapAddrDso : σ → U64 → σ × Option SymInfo)
    (manualStack : ManualStack)
    (cnt : Int)
    {slots : List (Fin maxManualStackDepth)}
    (increasing : slots.Pairwise (· < ·))
    (syms : σ)
    (frameIdx : Nat) :
    (frameLoop mapAddrDso manualStack cnt slots syms frameIdx).lines.filterMap StackLine.place =
      (wordsWith Option.isSome (visitedWords manualStack (coveredSlots cnt slots))
        (answersOf mapAddrDso syms
          (visitedWords manualStack (coveredSlots cnt slots)))).zipIdx frameIdx := by
  induction slots generalizing syms frameIdx with
  | nil => rfl
  | cons i rest inductionHypothesis =>
      have restIncreasing := (List.pairwise_cons.mp increasing).2
      unfold frameLoop
      by_cases below : (i.val : Int) < cnt
      · rw [if_pos below, coveredSlots_cons_of_lt below]
        dsimp only
        by_cases zero : manualStack i = 0
        · rw [if_pos zero, visitedWords_cons_of_zero zero]
          rfl
        · rw [if_neg zero, visitedWords_cons_of_ne zero, answersOf]
          cases looked : mapAddrDso syms (manualStack i) with
          | mk after sinfo =>
              cases sinfo with
              | none =>
                  dsimp only
                  rw [wordsWith_cons_of_dropped rfl]
                  exact inductionHypothesis restIncreasing after frameIdx
              | some sinfo =>
                  dsimp only
                  rw [wordsWith_cons_of_kept rfl, List.zipIdx_cons,
                    ← inductionHypothesis restIncreasing after]
                  rfl
      · rw [if_neg below, coveredSlots_cons_of_not_lt increasing below]
        rfl

/-- Where every word whose symbol is kept is found, the words that are kept are those
of the found ones whose symbols are. -/
theorem exists_frames
    {words : List U64}
    {blazeSyms : List BlazeSym}
    {answers : List (Option SymInfo)}
    (enough : words.length ≤ blazeSyms.length)
    (each : answers.length = words.length)
    (agree : ∀ entry ∈ blazeSyms.zip answers,
      entry.1.name.isSome = true → entry.2.isSome = true) :
    ∃ frames : List (U64 × BlazeSym), frames.Sublist (words.zip blazeSyms) ∧
      wordsWith Option.isSome words answers = frames.map Prod.fst ∧
      wordsWith BlazeSym.isUser words blazeSyms =
        (frames.filter fun frame => frame.2.isUser).map Prod.fst := by
  induction words generalizing blazeSyms answers with
  | nil => exact ⟨[], .slnil, rfl, rfl⟩
  | cons word words inductionHypothesis =>
      obtain ⟨sym, blazeSyms, rfl⟩ := List.exists_cons_of_length_pos
        (Nat.lt_of_lt_of_le (Nat.succ_pos _) enough)
      obtain ⟨answer, answers, rfl⟩ := List.exists_cons_of_length_eq_add_one each
      rw [List.zip_cons_cons, List.forall_mem_cons] at agree
      obtain ⟨frames, sublist, found, user⟩ := inductionHypothesis
        (Nat.le_of_succ_le_succ enough) (Nat.succ.inj each) agree.2
      cases answered : answer.isSome with
      | true =>
          refine ⟨(word, sym) :: frames, sublist.cons_cons _, ?_, ?_⟩
          · rw [wordsWith_cons_of_kept answered, found, List.map_cons]
          · cases kept : sym.isUser with
            | true =>
                rw [wordsWith_cons_of_kept kept, user, List.filter_cons, if_pos kept,
                  List.map_cons]
            | false =>
                rw [wordsWith_cons_of_dropped kept, user, List.filter_cons,
                  if_neg (ne_true_of_eq_false kept)]
      | false =>
          have dropped : sym.isUser = false := by
            refine Bool.eq_false_iff.mpr fun kept => ?_
            have isFound := agree.1 (BlazeSym.name_isSome_of_isUser kept)
            rw [answered] at isFound
            cases isFound
          refine ⟨frames, sublist.cons _, ?_, ?_⟩
          · rw [wordsWith_cons_of_dropped answered, found]
          · rw [wordsWith_cons_of_dropped dropped, user]

/-- Where blazesym answers, and names no frame that the other build does not find, it
shows of the frames that the other build shows those whose symbols are kept, in the
same order and numbered anew, and says so when there are none. -/
theorem blazesym_shows_user_frames
    (mapAddrDso : σ → U64 → σ × Option SymInfo)
    (cxaDemangle : Name → Option Name)
    {symbolize : List U64 → Option (List BlazeSym)}
    {manualStack : ManualStack}
    {cnt : Int}
    {blazeSyms : List BlazeSym}
    (answered : symbolize (manualFrames manualStack cnt) = some blazeSyms)
    (each : blazeSyms.length = (manualFrames manualStack cnt).length)
    (syms : σ)
    (agree : ∀ entry ∈ blazeSyms.zip
        (answersOf mapAddrDso syms ((manualFrames manualStack cnt).takeWhile (· ≠ 0))),
      entry.1.name.isSome = true → entry.2.isSome = true) :
    ∃ frames : List (U64 × BlazeSym),
      frames.Sublist (((manualFrames manualStack cnt).takeWhile (· ≠ 0)).zip blazeSyms) ∧
        (printManualStackFrames mapAddrDso (some syms) manualStack cnt).lines.filterMap
          StackLine.place = (frames.map Prod.fst).zipIdx ∧
        (printManualStackFramesBlazesym cxaDemangle symbolize manualStack cnt).filterMap
          BlazeLine.place =
            ((frames.filter fun frame => frame.2.isUser).map Prod.fst).zipIdx ∧
        (BlazeLine.noSymbolsResolved ∈
            printManualStackFramesBlazesym cxaDemangle symbolize manualStack cnt ↔
          ∀ frame ∈ frames, frame.2.isUser = false) := by
  have increasing := List.pairwise_lt_finRange maxManualStackDepth
  have plain := places_frameLoop mapAddrDso manualStack cnt increasing syms 0
  have printed := places_blazeManualLoop cxaDemangle manualStack cnt increasing blazeSyms 0
  have words : visitedWords manualStack
      (coveredSlots cnt (List.finRange maxManualStackDepth)) =
        (manualFrames manualStack cnt).takeWhile (· ≠ 0) := rfl
  rw [words] at plain printed
  have enough : ((manualFrames manualStack cnt).takeWhile (· ≠ 0)).length ≤ blazeSyms.length := by
    rw [each]
    exact (List.takeWhile_prefix _).length_le
  obtain ⟨frames, sublist, found, user⟩ :=
    exists_frames enough (length_answersOf mapAddrDso syms _) agree
  rw [found] at plain
  rw [user] at printed
  refine ⟨frames, sublist, ?_, ?_, ?_⟩
  · rw [← plain, printManualStackFrames]
    dsimp only
    rw [List.cons_append, List.filterMap_cons_none rfl, List.filterMap_append]
    split
    · rw [List.filterMap_cons_none rfl, List.filterMap_nil, List.append_nil]
    · rw [List.filterMap_nil, List.append_nil]
  · rw [← printed, printManualStackFramesBlazesym, answered]
    dsimp only
    rw [List.cons_append, List.filterMap_cons_none rfl, List.filterMap_append, List.filterMap_map]
    split
    · rw [List.filterMap_cons_none rfl, List.filterMap_nil, List.append_nil]
      exact congrFun List.filterMap_eq_map _
    · rw [List.filterMap_nil, List.append_nil]
      exact congrFun List.filterMap_eq_map _
  · have nothing : (∀ frame ∈ frames, frame.2.isUser = false) ↔
        blazeManualLoop cxaDemangle manualStack cnt (List.finRange maxManualStackDepth)
          blazeSyms 0 = [] := by
      rw [← List.map_eq_nil_iff, printed, List.zipIdx_eq_nil_iff, List.map_eq_nil_iff,
        List.filter_eq_nil_iff]
      simp only [Bool.not_eq_true]
    rw [nothing, printManualStackFramesBlazesym, answered]
    dsimp only
    split
    · next empty => simp [empty]
    · next printedSome => simp [printedSome]

/-- A function of the target at one address, and one of a library at all others. -/
def twoModules (addr : U64) : BlazeSym :=
  if addr = 4096 then ⟨some "main".toList, 4, some "/srv/app".toList, none, 0⟩
  else ⟨some "printf".toList, 8, some "/usr/lib/libc.so.6".toList, none, 0⟩

/-- What blazesym answers. -/
def twoModulesAnswer (addrs : List U64) : Option (List BlazeSym) := some (addrs.map twoModules)

/-- The lookups of the other build, which find an object at every address. -/
def anyLookup (syms : Unit) (_ : U64) : Unit × Option SymInfo :=
  (syms, some ⟨some "/srv/app".toList, 0, none, 0⟩)

/-- A frame of the target and one of the library. -/
def twoFrames : ManualStack := fun i => if i = 0 then 4096 else 8192

theorem blazesym_shows_user_frames_twoModules :
    ∃ frames : List (U64 × BlazeSym),
      frames.Sublist (((manualFrames twoFrames 2).takeWhile (· ≠ 0)).zip
          ((manualFrames twoFrames 2).map twoModules)) ∧
        (printManualStackFrames anyLookup (some ()) twoFrames 2).lines.filterMap
          StackLine.place = (frames.map Prod.fst).zipIdx ∧
        (printManualStackFramesBlazesym (fun _ => none) twoModulesAnswer twoFrames 2).filterMap
          BlazeLine.place =
            ((frames.filter fun frame => frame.2.isUser).map Prod.fst).zipIdx ∧
        (BlazeLine.noSymbolsResolved ∈
            printManualStackFramesBlazesym (fun _ => none) twoModulesAnswer twoFrames 2 ↔
          ∀ frame ∈ frames, frame.2.isUser = false) :=
  blazesym_shows_user_frames anyLookup (fun _ => none) rfl rfl () (by decide)

/-! ## The listing of all rows -/

/-- What is printed for a row. -/
inductive BlazeListingLine
  | heading (size count : U64)
  | frame (printed : BlazeFrame)
  | manual (line : BlazeLine)
  | failedLookup (errno : Nat)

/-- The listing of rows, and what it leaves in the global array. -/
structure BlazeListing where
  lines : List BlazeListingLine
  failed : Bool
  stack : StackWords

section Rows

/-! The answers of blazesym may differ from row to row. -/

variable (cxaDemangle : Name → Option Name) (symbolize : Nat → List U64 → Option (List BlazeSym))

/-- `print_stack_frames`, as it is built with blazesym. -/
def printStackFramesWithBlazesym (lookupElem : Nat → BitVec 32 → Except Errno StackWords) :
    Nat → List Allocation → StackWords → BlazeListing
  | _, [], stack => ⟨[], false, stack⟩
  | i, alloc :: rest, stack =>
      let heading := .heading alloc.size alloc.count
      if alloc.manualStackCnt > 0 then
        let lines := (printManualStackFramesBlazesym cxaDemangle (symbolize i) alloc.manualStack
          alloc.manualStackCnt).map .manual
        let others := printStackFramesWithBlazesym lookupElem (i + 1) rest stack
        { others with lines := heading :: lines ++ others.lines }
      else
        match lookupElem i (alloc.stackId.setWidth 32) with
        | .error .enoent =>
            let others := printStackFramesWithBlazesym lookupElem (i + 1) rest stack
            { others with lines := heading :: others.lines }
        | .error (.other errno) => ⟨[heading, .failedLookup errno], true, stack⟩
        | .ok stack =>
            let lines := (printStackFramesByBlazesym cxaDemangle (symbolize i) stack).map .frame
            let others := printStackFramesWithBlazesym lookupElem (i + 1) rest stack
            { others with lines := heading :: lines ++ others.lines }

/-- The row that a line is the heading of. -/
def BlazeListingLine.counts : BlazeListingLine → Option (U64 × U64)
  | .heading size count => some (size, count)
  | .frame _ => none
  | .manual _ => none
  | .failedLookup _ => none

theorem counts_map_frame (frames : List BlazeFrame) :
    (frames.map BlazeListingLine.frame).filterMap BlazeListingLine.counts = [] := by
  rw [List.filterMap_map]
  exact List.filterMap_eq_nil_iff.mpr fun _ _ => rfl

theorem counts_map_blazeManual (lines : List BlazeLine) :
    (lines.map BlazeListingLine.manual).filterMap BlazeListingLine.counts = [] := by
  rw [List.filterMap_map]
  exact List.filterMap_eq_nil_iff.mpr fun _ _ => rfl

section Builds

variable {σ : Type} (getSyms : σ → σ × Bool) (mapAddrDso : σ → U64 → σ × Option SymInfo)

/-- Both builds stop at the same row, leave the same words in the global array, and
show alike whatever they show alike of the lines for one row. -/
theorem builds_show_alike
    {γ : Type}
    (ofBlaze : BlazeListingLine → Option γ)
    (ofPlain : ListingLine → Option γ)
    (heading : ∀ size count, ofBlaze (.heading size count) = ofPlain (.heading size count))
    (failedLookup : ∀ errno, ofBlaze (.failedLookup errno) = ofPlain (.failedLookup errno))
    (manual : ∀ i (alloc : Allocation) syms,
      ((printManualStackFramesBlazesym cxaDemangle (symbolize i) alloc.manualStack
        alloc.manualStackCnt).map BlazeListingLine.manual).filterMap ofBlaze =
          (printManualStack getSyms mapAddrDso alloc syms).2.filterMap ofPlain)
    (frames : ∀ i words syms,
      ((printStackFramesByBlazesym cxaDemangle (symbolize i) words).map
        BlazeListingLine.frame).filterMap ofBlaze =
          (printStackFramesBySymsCache getSyms mapAddrDso words syms).2.filterMap ofPlain)
    (lookupElem : Nat → BitVec 32 → Except Errno StackWords)
    (rows : List Allocation)
    (i : Nat)
    (stack : StackWords)
    (syms : σ) :
    (printStackFramesWithBlazesym cxaDemangle symbolize lookupElem i rows stack).lines.filterMap
        ofBlaze =
      (printStackFrames getSyms mapAddrDso lookupElem i rows stack syms).lines.filterMap
        ofPlain ∧
      (printStackFramesWithBlazesym cxaDemangle symbolize lookupElem i rows stack).failed =
        (printStackFrames getSyms mapAddrDso lookupElem i rows stack syms).failed ∧
      (printStackFramesWithBlazesym cxaDemangle symbolize lookupElem i rows stack).stack =
        (printStackFrames getSyms mapAddrDso lookupElem i rows stack syms).stack := by
  have entry : ∀ size count front front' back back',
      front.filterMap ofBlaze = front'.filterMap ofPlain →
      back.filterMap ofBlaze = back'.filterMap ofPlain →
      (BlazeListingLine.heading size count :: front ++ back).filterMap ofBlaze =
        (ListingLine.heading size count :: front' ++ back').filterMap ofPlain := by
    intro size count front front' back back' sameFront sameBack
    rw [List.filterMap_append, List.filterMap_append, List.filterMap_cons, List.filterMap_cons,
      heading, sameFront, sameBack]
  induction rows generalizing i stack syms with
  | nil => exact ⟨rfl, rfl, rfl⟩
  | cons alloc rest inductionHypothesis =>
      rw [printStackFramesWithBlazesym, printStackFrames]
      dsimp only
      by_cases hasManual : alloc.manualStackCnt > 0
      · have others := inductionHypothesis (i + 1) stack
          (printManualStack getSyms mapAddrDso alloc syms).1
        rw [if_pos hasManual, if_pos hasManual]
        exact ⟨entry _ _ _ _ _ _ (manual i alloc syms) others.1, others.2⟩
      · rw [if_neg hasManual, if_neg hasManual]
        cases lookupElem i (alloc.stackId.setWidth 32) with
        | error errno =>
            cases errno with
            | enoent =>
                have others := inductionHypothesis (i + 1) stack syms
                exact ⟨entry _ _ [] [] _ _ rfl others.1, others.2⟩
            | other errno =>
                refine ⟨entry _ _ [] [] [_] [_] rfl ?_, rfl, rfl⟩
                rw [List.filterMap_cons, List.filterMap_cons, failedLookup]
                rfl
        | ok words =>
            have others := inductionHypothesis (i + 1) words
              (printStackFramesBySymsCache getSyms mapAddrDso words syms).1
            exact ⟨entry _ _ _ _ _ _ (frames i words syms) others.1, others.2⟩

/-- Whatever blazesym and the cache of symbols answer, both builds list the same rows,
stop at the same row, and leave the same words in the global array. -/
theorem builds_list_same_rows
    (lookupElem : Nat → BitVec 32 → Except Errno StackWords)
    (rows : List Allocation)
    (i : Nat)
    (stack : StackWords)
    (syms : σ) :
    (printStackFramesWithBlazesym cxaDemangle symbolize lookupElem i rows stack).lines.filterMap
        BlazeListingLine.counts =
      (printStackFrames getSyms mapAddrDso lookupElem i rows stack syms).lines.filterMap
        ListingLine.counts ∧
      (printStackFramesWithBlazesym cxaDemangle symbolize lookupElem i rows stack).failed =
        (printStackFrames getSyms mapAddrDso lookupElem i rows stack syms).failed ∧
      (printStackFramesWithBlazesym cxaDemangle symbolize lookupElem i rows stack).stack =
        (printStackFrames getSyms mapAddrDso lookupElem i rows stack syms).stack :=
  builds_show_alike cxaDemangle symbolize getSyms mapAddrDso _ _ (fun _ _ => rfl) (fun _ => rfl)
    (fun _ _ _ => by rw [counts_printManualStack, counts_map_blazeManual])
    (fun _ _ _ => by rw [counts_printStackFramesBySymsCache, counts_map_frame])
    lookupElem rows i stack syms

end Builds

/-! ## The frames under the rows -/

/-- What a line shows, if it is about a row or a stack from the map. -/
def BlazeListingLine.shown : BlazeListingLine → Option Shown
  | .heading size count => some (.row size count)
  | .frame printed => some (.frame printed.place.2 printed.place.1)
  | .manual _ => none
  | .failedLookup _ => none

/-- A stack from the map is printed up to its first word that is zero. -/
theorem shown_blazeFrameLoop
    (stack : StackWords)
    {slots : List (Fin perfMaxStackDepth)}
    {blazeSyms : List BlazeSym}
    (each : blazeSyms.length = slots.length) :
    (blazeFrameLoop cxaDemangle stack slots blazeSyms).map
        (fun printed => Shown.frame printed.place.2 printed.place.1) =
      (slots.takeWhile fun i => stack i ≠ 0).map fun i => Shown.frame i.val (stack i) := by
  induction slots generalizing blazeSyms with
  | nil => rfl
  | cons i rest inductionHypothesis =>
      obtain ⟨sym, blazeSyms, rfl⟩ := List.exists_cons_of_length_eq_add_one each
      rw [blazeFrameLoop]
      by_cases zero : stack i = 0
      · rw [if_pos zero, List.takeWhile_cons_of_neg (by simpa using zero)]
        rfl
      · rw [if_neg zero, List.takeWhile_cons_of_pos (by simpa using zero), List.map_cons,
          ← inductionHypothesis (Nat.succ.inj each)]
        split
        · rw [List.map_cons, place_printStackFrameByBlazesym]
        · rw [List.map_cons, place_printStackFrameByBlazesym]

/-- All words before the first that is zero are printed, with or without a name. -/
theorem shown_printStackFramesByBlazesym
    {symbolize : List U64 → Option (List BlazeSym)}
    {stack : StackWords}
    {blazeSyms : List BlazeSym}
    (answered : symbolize (List.ofFn stack) = some blazeSyms)
    (each : blazeSyms.length = (List.ofFn stack).length) :
    ((printStackFramesByBlazesym cxaDemangle symbolize stack).map BlazeListingLine.frame).filterMap
        BlazeListingLine.shown =
      leadingFrames stack := by
  have slots : blazeSyms.length = (List.finRange perfMaxStackDepth).length := by
    rw [each, List.length_ofFn, List.length_finRange]
  rw [printStackFramesByBlazesym, answered, List.filterMap_map, leadingFrames,
    ← shown_blazeFrameLoop cxaDemangle stack slots]
  exact congrFun List.filterMap_eq_map _

/-- The lines of a manual stack show nothing of the map. -/
theorem shown_map_blazeManual (lines : List BlazeLine) :
    (lines.map BlazeListingLine.manual).filterMap BlazeListingLine.shown = [] := by
  rw [List.filterMap_eq_nil_iff]
  intro line member
  obtain ⟨manual, -, rfl⟩ := List.mem_map.mp member
  rfl

/-- Both builds list the same frames of the stacks from the map, where the cache has
symbols and blazesym answers with a symbol for each address. -/
theorem builds_list_same_frames
    {σ : Type}
    {getSyms : σ → σ × Bool}
    (mapAddrDso : σ → U64 → σ × Option SymInfo)
    (hasSyms : ∀ syms, (getSyms syms).2 = true)
    (answered : ∀ i addrs, ∃ blazeSyms, symbolize i addrs = some blazeSyms ∧
      blazeSyms.length = addrs.length)
    (lookupElem : Nat → BitVec 32 → Except Errno StackWords)
    (rows : List Allocation)
    (i : Nat)
    (stack : StackWords)
    (syms : σ) :
    (printStackFramesWithBlazesym cxaDemangle symbolize lookupElem i rows stack).lines.filterMap
        BlazeListingLine.shown =
      (printStackFrames getSyms mapAddrDso lookupElem i rows stack syms).lines.filterMap
        ListingLine.shown := by
  have known : ∀ syms, getSyms syms = ((getSyms syms).1, true) :=
    fun syms => Prod.ext rfl (hasSyms syms)
  refine (builds_show_alike cxaDemangle symbolize getSyms mapAddrDso _ _ (fun _ _ => rfl)
    (fun _ => rfl) ?_ ?_ lookupElem rows i stack syms).1
  · intro i alloc syms
    rw [shown_map_blazeManual, printManualStack, known]
    exact (shown_map_manual _).symm
  · intro i words syms
    obtain ⟨blazeSyms, symbols, each⟩ := answered i (List.ofFn words)
    rw [shown_printStackFramesByBlazesym cxaDemangle symbols each, printStackFramesBySymsCache,
      known]
    exact (shown_stackFrameLoop mapAddrDso words _ _).symm

/-- Whatever the answers, both builds list the same rows, stop at the same row, and
leave the same words in the global array.  They list the same frames of the stacks
from the map, too, where the cache has symbols and blazesym answers with a symbol
for each address. -/
theorem builds_list_alike
    {σ : Type}
    (getSyms : σ → σ × Bool)
    (mapAddrDso : σ → U64 → σ × Option SymInfo)
    (lookupElem : Nat → BitVec 32 → Except Errno StackWords)
    (rows : List Allocation)
    (i : Nat)
    (stack : StackWords)
    (syms : σ) :
    ((printStackFramesWithBlazesym cxaDemangle symbolize lookupElem i rows stack).lines.filterMap
        BlazeListingLine.counts =
      (printStackFrames getSyms mapAddrDso lookupElem i rows stack syms).lines.filterMap
        ListingLine.counts ∧
      (printStackFramesWithBlazesym cxaDemangle symbolize lookupElem i rows stack).failed =
        (printStackFrames getSyms mapAddrDso lookupElem i rows stack syms).failed ∧
      (printStackFramesWithBlazesym cxaDemangle symbolize lookupElem i rows stack).stack =
        (printStackFrames getSyms mapAddrDso lookupElem i rows stack syms).stack) ∧
    ((∀ syms, (getSyms syms).2 = true) →
      (∀ i addrs, ∃ blazeSyms, symbolize i addrs = some blazeSyms ∧
        blazeSyms.length = addrs.length) →
      (printStackFramesWithBlazesym cxaDemangle symbolize lookupElem i rows stack).lines.filterMap
          BlazeListingLine.shown =
        (printStackFrames getSyms mapAddrDso lookupElem i rows stack syms).lines.filterMap
          ListingLine.shown) :=
  ⟨builds_list_same_rows cxaDemangle symbolize getSyms mapAddrDso lookupElem rows i stack syms,
    fun hasSyms answered => builds_list_same_frames cxaDemangle symbolize mapAddrDso hasSyms
      answered lookupElem rows i stack syms⟩

end Rows

theorem builds_list_alike_twoWords :
    (printStackFramesWithBlazesym (fun _ => none) (fun _ => twoModulesAnswer)
          (fun _ _ => .ok twoWords) 0 [emptyReport.allocs 0] (fun _ => 4096)).lines.filterMap
        BlazeListingLine.shown =
      (printStackFrames (fun syms : Unit => (syms, true)) anyLookup
          (fun _ _ => .ok twoWords) 0 [emptyReport.allocs 0] (fun _ => 4096) ()).lines.filterMap
        ListingLine.shown :=
  (builds_list_alike _ _ _ _ _ _ _ _ _).2 (fun _ => rfl)
    fun _ addrs => ⟨addrs.map twoModules, rfl, List.length_map _⟩

end Memleak
end EbpfHub
