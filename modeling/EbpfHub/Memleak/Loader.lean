import EbpfHub.Memleak.Attach
import EbpfHub.Memleak.LibraryScan

/-!
# What `attach_uprobes` attaches

The programs of the C library are attached first, most of them with a check that
ends the function when it fails.  Those of the operators of C++ are attached to
`libstdc++.so.6` without a check or, where the maps of the target are not found
to mention the library, to the executable, and there the first two are checked.
-/

namespace EbpfHub
namespace Memleak
namespace Loader

/-! ## The target and the skeleton -/

/-- The target process and what libbpf makes of it. -/
structure Process where
  /-- The content of the maps file, `none` when it cannot be opened. -/
  maps : Option (List Char)
  /-- The path of the executable, `none` when it cannot be read. -/
  exe : Option (List Char)
  /-- The binary has the symbol, so that an attach to it succeeds. -/
  hasSymbol : List Char → List Char → Bool
  /-- The `errno` of an attach that fails. -/
  attachErrno : List Char → List Char → Nat
  attachErrno_pos : ∀ binary symbol, 0 < attachErrno binary symbol

/-- A program, the symbol it is attached to, and whether to its return. -/
structure Uprobe where
  symbol : List Char
  program : Program
  retprobe : Bool

/-- A link of a program that is attached. -/
structure Link where
  binary : List Char
  symbol : List Char
  retprobe : Bool
  deriving DecidableEq

/-- The links of the skeleton, `none` for the null pointer, and `errno`. -/
structure Skel where
  links : Program → Option Link
  errno : Nat

/-! ## The statements -/

/-- The link that `bpf_program__attach_uprobe_opts` returns. -/
def linkOf (process : Process) (binary : List Char) (uprobe : Uprobe) : Option Link :=
  if process.hasSymbol binary uprobe.symbol then
    some ⟨binary, uprobe.symbol, uprobe.retprobe⟩
  else none

/-- The assignment of a link, and of `errno` when the attach fails. -/
def Skel.attach
    (process : Process)
    (binary : List Char)
    (skel : Skel)
    (uprobe : Uprobe) : Skel where
  links := Function.update skel.links uprobe.program (linkOf process binary uprobe)
  errno :=
    if process.hasSymbol binary uprobe.symbol then skel.errno
    else process.attachErrno binary uprobe.symbol

/-- A statement of `attach_uprobes`. -/
inductive Statement
  /-- `__ATTACH_UPROBE` and `__ATTACH_UPROBE_LIB`. -/
  | attach (binary : List Char) (uprobe : Uprobe)
  /-- `__CHECK_PROGRAM`. -/
  | check (program : Program)

/-- Execute a statement: the skeleton after it, or the value that the function
returns there. -/
def Statement.exec (process : Process) (skel : Skel) : Statement → Except Int Skel
  | .attach binary uprobe => .ok (skel.attach process binary uprobe)
  | .check program =>
      match skel.links program with
      | some _ => .ok skel
      | none => .error (-skel.errno)

/-- `__ATTACH_UPROBE_CHECKED`, and an attach to another binary with its check. -/
def attachChecked (binary : List Char) (uprobe : Uprobe) : List Statement :=
  [.attach binary uprobe, .check uprobe.program]

/-- Execute statements up to the first that returns. -/
def execAll
    (process : Process)
    (statements : List Statement)
    (skel : Skel) : Except Int Skel :=
  statements.foldlM (Statement.exec process) skel

/-! ## `attach_uprobes` -/

/-- The entry and the exit of a function. -/
def both (symbol : String) (fn : AllocFn) : List Uprobe :=
  [⟨symbol.toList, .enter fn, false⟩, ⟨symbol.toList, .exit fn, true⟩]

/-- The entry of a function that releases a block. -/
def entry (symbol : String) (fn : ReleaseFn) : Uprobe := ⟨symbol.toList, .release fn, false⟩

/-- `"libc.so.6"`. -/
def libc : List Char := "libc.so.6".toList

/-- `"libstdc++.so.6"`. -/
def libstdcxx : List Char := "libstdc++.so.6".toList

/-- The programs of the C library that are attached with a check. -/
def mandatoryUprobes : List Uprobe :=
  both "malloc" .malloc ++ both "calloc" .calloc ++ both "realloc" .realloc ++
    both "mmap" .mmap ++ both "mremap" .mremap ++ both "posix_memalign" .posixMemalign ++
    both "memalign" .memalign ++ [entry "free" .free, entry "munmap" .munmap]

/-- Those that are attached without one. -/
def optionalUprobes : List Uprobe :=
  both "valloc" .valloc ++ both "pvalloc" .pvalloc ++ both "aligned_alloc" .alignedAlloc

/-- The programs of `operator new`. -/
def newUprobes : List Uprobe := both "_Znwm" .operatorNew

/-- Those of the other operators. -/
def otherOperatorUprobes : List Uprobe :=
  both "_Znam" .operatorNewArray ++
    [entry "_ZdlPv" .operatorDelete, entry "_ZdlPvm" .operatorDeleteSized,
      entry "_ZdaPv" .operatorDeleteArray, entry "_ZdaPvm" .operatorDeleteArraySized]

/-- The programs of all operators. -/
def operatorUprobes : List Uprobe := newUprobes ++ otherOperatorUprobes

/-- The statements before the search for `libstdc++`. -/
def libcStatements : List Statement :=
  mandatoryUprobes.flatMap (attachChecked libc) ++ optionalUprobes.map (.attach libc)

/-- The statements of the branch that attaches to the library. -/
def libraryStatements : List Statement := operatorUprobes.map (.attach libstdcxx)

/-- The statements of the branch that attaches to the executable. -/
def exeStatements (exePath : List Char) : List Statement :=
  newUprobes.flatMap (attachChecked exePath) ++ otherOperatorUprobes.map (.attach exePath)

/-- `get_pid_exe_path`: `readlink` stores at most 255 characters. -/
def getPidExePath (process : Process) : Option (List Char) := process.exe.map (·.take 255)

/-- `attach_uprobes`: the skeleton when it returns 0 at its end, or the value
that it returns before. -/
def attachUprobes (process : Process) (skel : Skel) : Except Int Skel :=
  match execAll process libcStatements skel with
  | .error code => .error code
  | .ok skel =>
      if isLibraryLoaded process.maps "libstdc++".toList then
        execAll process libraryStatements skel
      else
        match getPidExePath process with
        | none => .error (-1)
        | some exePath => execAll process (exeStatements exePath) skel

/-- The value that `attach_uprobes` returns. -/
def returnValue : Except Int Skel → Int
  | .ok _ => 0
  | .error code => code

/-! ## Executing the statements -/

section Exec

variable {process : Process}

/-- Attaches without checks are all executed. -/
theorem execAll_attach
    (binary : List Char)
    (uprobes : List Uprobe)
    (skel : Skel) :
    execAll process (uprobes.map (.attach binary)) skel =
      .ok (uprobes.foldl (Skel.attach process binary) skel) := by
  unfold execAll
  induction uprobes generalizing skel with
  | nil => rfl
  | cons uprobe uprobes inductionHypothesis =>
      rw [List.map_cons, List.foldlM_cons]
      exact inductionHypothesis (skel.attach process binary uprobe)

/-- A link is one to the symbol in the binary. -/
theorem linkOf_eq_some
    {binary : List Char}
    {uprobe : Uprobe}
    {link : Link}
    (attached : linkOf process binary uprobe = some link) :
    link = ⟨binary, uprobe.symbol, uprobe.retprobe⟩ := by
  unfold linkOf at attached
  split at attached
  · exact (Option.some.inj attached).symm
  · cases attached

/-- Statements that go on hand the skeleton to the next ones. -/
theorem execAll_append
    (first second : List Statement)
    (skel : Skel) :
    execAll process (first ++ second) skel =
      (execAll process first skel).bind (execAll process second) := by
  unfold execAll
  rw [List.foldlM_append]
  rfl

/-- A checked attach goes on if the binary has the symbol, and else returns a
value that is not 0. -/
theorem execAll_attachChecked
    (binary : List Char)
    (uprobe : Uprobe)
    (skel : Skel) :
    execAll process (attachChecked binary uprobe) skel =
      if process.hasSymbol binary uprobe.symbol then .ok (skel.attach process binary uprobe)
      else .error (-process.attachErrno binary uprobe.symbol) := by
  have link : (skel.attach process binary uprobe).links uprobe.program =
      linkOf process binary uprobe := Function.update_self ..
  have run : execAll process (attachChecked binary uprobe) skel =
      (Statement.check uprobe.program).exec process (skel.attach process binary uprobe) := by
    simp only [execAll, attachChecked, List.foldlM_cons, List.foldlM_nil, bind_pure]
    rfl
  rw [run, Statement.exec, link, linkOf]
  by_cases found : process.hasSymbol binary uprobe.symbol = true
  · rw [if_pos found, if_pos found]
  · rw [if_neg found, if_neg found]
    dsimp only
    rw [Skel.attach, if_neg found]

/-- Checked attaches to a binary that has all the symbols go on. -/
theorem execAll_checked_of_forall
    {binary : List Char}
    {uprobes : List Uprobe}
    (all : ∀ uprobe ∈ uprobes, process.hasSymbol binary uprobe.symbol = true)
    (skel : Skel) :
    execAll process (uprobes.flatMap (attachChecked binary)) skel =
      .ok (uprobes.foldl (Skel.attach process binary) skel) := by
  induction uprobes generalizing skel with
  | nil => rfl
  | cons uprobe uprobes inductionHypothesis =>
      obtain ⟨first, others⟩ := List.forall_mem_cons.mp all
      rw [List.flatMap_cons, execAll_append, execAll_attachChecked, if_pos first]
      exact inductionHypothesis others (skel.attach process binary uprobe)

/-- If one of the symbols is missing, they return a value that is not 0. -/
theorem execAll_checked_of_not_forall
    {binary : List Char}
    {uprobes : List Uprobe}
    (missing : ¬∀ uprobe ∈ uprobes, process.hasSymbol binary uprobe.symbol = true)
    (skel : Skel) :
    ∃ code, execAll process (uprobes.flatMap (attachChecked binary)) skel = .error code ∧
      code ≠ 0 := by
  induction uprobes generalizing skel with
  | nil => exact absurd (fun _ member => by cases member) missing
  | cons uprobe uprobes inductionHypothesis =>
      rw [List.flatMap_cons, execAll_append, execAll_attachChecked]
      split
      · next first =>
        have rest : ¬∀ uprobe ∈ uprobes, process.hasSymbol binary uprobe.symbol = true :=
          fun others => missing (List.forall_mem_cons.mpr ⟨first, others⟩)
        exact inductionHypothesis rest (skel.attach process binary uprobe)
      · have positive := process.attachErrno_pos binary uprobe.symbol
        exact ⟨_, rfl, by omega⟩

/-- Attaches of other programs leave a link as it is. -/
theorem links_foldl_attach_of_notMem
    {binary : List Char}
    {uprobes : List Uprobe}
    {program : Program}
    (other : program ∉ uprobes.map Uprobe.program)
    (skel : Skel) :
    (uprobes.foldl (Skel.attach process binary) skel).links program = skel.links program := by
  induction uprobes generalizing skel with
  | nil => rfl
  | cons uprobe uprobes inductionHypothesis =>
      obtain ⟨first, others⟩ := List.ne_and_not_mem_of_not_mem_cons other
      rw [List.foldl_cons, inductionHypothesis others]
      exact Function.update_of_ne first _ _

/-- Attaches of different programs leave each with its link. -/
theorem links_foldl_attach
    {binary : List Char}
    {uprobes : List Uprobe}
    (different : (uprobes.map Uprobe.program).Nodup)
    {uprobe : Uprobe}
    (member : uprobe ∈ uprobes)
    (skel : Skel) :
    (uprobes.foldl (Skel.attach process binary) skel).links uprobe.program =
      linkOf process binary uprobe := by
  induction uprobes generalizing skel with
  | nil => cases member
  | cons first uprobes inductionHypothesis =>
      obtain ⟨other, rest⟩ := List.nodup_cons.mp different
      rw [List.foldl_cons]
      rcases List.mem_cons.mp member with rfl | inRest
      · rw [links_foldl_attach_of_notMem other]
        exact Function.update_self ..
      · exact inductionHypothesis rest inRest (skel.attach process binary first)

end Exec

/-! ## What is attached -/

/-- The functions of the C library without which nothing is traced. -/
def mandatoryFunctions : List String :=
  ["malloc", "calloc", "realloc", "mmap", "mremap", "posix_memalign", "memalign", "free", "munmap"]

namespace Process

/-- The C library of the target has all mandatory functions. -/
def HasMandatory (process : Process) : Prop :=
  ∀ fn ∈ mandatoryFunctions, process.hasSymbol libc fn.toList = true

/-- The maps of the target mention `libstdc++`. -/
def UsesLibrary (process : Process) : Prop :=
  ∃ content ∈ process.maps, Mentions content "libstdc++".toList

/-- The place of the operators that the target uses: the library if its maps
mention it, and else its executable. -/
inductive OperatorPlace (process : Process) (exe : List Char) : List Char → Prop
  | library : process.UsesLibrary → OperatorPlace process exe libstdcxx
  | executable : ¬process.UsesLibrary → OperatorPlace process exe exe

end Process

section Attach

variable {process : Process} {skel : Skel} {exe : List Char}

/-- The library is not found in maps that do not mention it. -/
theorem usesLibrary_of_isLibraryLoaded
    (loaded : isLibraryLoaded process.maps "libstdc++".toList = true) :
    process.UsesLibrary := by
  cases content : process.maps with
  | none =>
      rw [content] at loaded
      cases loaded
  | some text =>
      rw [content] at loaded
      exact ⟨text, content, mentions_of_isLibraryLoaded (by simp) (by simp) loaded⟩

theorem hasMandatory_iff :
    process.HasMandatory ↔
      ∀ uprobe ∈ mandatoryUprobes, process.hasSymbol libc uprobe.symbol = true := by
  simp [Process.HasMandatory, mandatoryFunctions, mandatoryUprobes, both, entry]

/-- The operators are attached to the library if it is found in the maps, and
else to the executable as far as its path is read. -/
def attachedPlace (process : Process) (exe : List Char) : List Char :=
  if isLibraryLoaded process.maps "libstdc++".toList then libstdcxx else exe.take 255

/-- The branch of `attach_uprobes` goes on to its end. -/
def GetsThrough (process : Process) (exe : List Char) : Prop :=
  isLibraryLoaded process.maps "libstdc++".toList = true ∨
    process.hasSymbol (exe.take 255) "_Znwm".toList = true

/-- With all mandatory functions, the statements before the branch go on. -/
theorem exists_execAll_libcStatements (mandatory : process.HasMandatory) :
    ∃ middle, execAll process libcStatements skel = .ok middle := by
  have checked := execAll_checked_of_forall (hasMandatory_iff.mp mandatory) skel
  rw [libcStatements, execAll_append, checked]
  exact ⟨_, execAll_attach libc optionalUprobes _⟩

/-- The checked programs of the executable are those of `operator new`. -/
theorem forall_newUprobes_iff {binary : List Char} :
    (∀ uprobe ∈ newUprobes, process.hasSymbol binary uprobe.symbol = true) ↔
      process.hasSymbol binary "_Znwm".toList = true := by
  simp [newUprobes, both]

/-- With all mandatory functions, `attach_uprobes` attaches all operators in one
place if its branch gets through. -/
theorem attachUprobes_of_getsThrough
    (readable : process.exe = some exe)
    (mandatory : process.HasMandatory)
    (gets : GetsThrough process exe) :
    ∃ middle, attachUprobes process skel =
      .ok (operatorUprobes.foldl (Skel.attach process (attachedPlace process exe)) middle) := by
  obtain ⟨middle, reaches⟩ := @exists_execAll_libcStatements process skel mandatory
  refine ⟨middle, ?_⟩
  unfold attachUprobes attachedPlace
  rw [reaches]
  dsimp only
  by_cases loaded : isLibraryLoaded process.maps "libstdc++".toList = true
  · rw [if_pos loaded, if_pos loaded]
    exact execAll_attach libstdcxx operatorUprobes middle
  · have path : getPidExePath process = some (exe.take 255) := by
      rw [getPidExePath, readable]
      rfl
    have new := execAll_checked_of_forall
      (forall_newUprobes_iff.mpr (gets.resolve_left loaded)) middle
    rw [if_neg loaded, if_neg loaded, path]
    dsimp only
    rw [exeStatements, execAll_append, new, Except.bind, execAll_attach, operatorUprobes,
      List.foldl_append]

/-- If its branch does not get through, `attach_uprobes` returns a value that is
not 0. -/
theorem attachUprobes_of_not_getsThrough
    (readable : process.exe = some exe)
    (mandatory : process.HasMandatory)
    (stops : ¬GetsThrough process exe) :
    ∃ code, attachUprobes process skel = .error code ∧ code ≠ 0 := by
  obtain ⟨middle, reaches⟩ := @exists_execAll_libcStatements process skel mandatory
  obtain ⟨missed, noNew⟩ := not_or.mp stops
  obtain ⟨code, fails, nonzero⟩ :=
    execAll_checked_of_not_forall (fun all => noNew (forall_newUprobes_iff.mp all)) middle
  have path : getPidExePath process = some (exe.take 255) := by
    rw [getPidExePath, readable]
    rfl
  refine ⟨code, ?_, nonzero⟩
  unfold attachUprobes
  rw [reaches]
  dsimp only
  rw [if_neg missed, path]
  dsimp only
  rw [exeStatements, execAll_append, fails]
  rfl

/-- Without one of the mandatory functions, `attach_uprobes` returns a value
that is not 0. -/
theorem attachUprobes_of_not_hasMandatory (missing : ¬process.HasMandatory) :
    ∃ code, attachUprobes process skel = .error code ∧ code ≠ 0 := by
  obtain ⟨code, fails, nonzero⟩ :=
    execAll_checked_of_not_forall (fun all => missing (hasMandatory_iff.mpr all)) skel
  refine ⟨code, ?_, nonzero⟩
  have first : execAll process libcStatements skel = .error code := by
    rw [libcStatements, execAll_append, fails]
    rfl
  rw [attachUprobes, first]

/-- `attach_uprobes` returns 0 exactly when the mandatory functions can be
probed, and then every operator in the place that the target uses has its
program attached there. -/
structure AttachesFully (process : Process) (exe : List Char) (skel : Skel) : Prop where
  returns : returnValue (attachUprobes process skel) = 0 ↔ process.HasMandatory
  operators : ∀ final, attachUprobes process skel = .ok final →
    ∀ place, process.OperatorPlace exe place → ∀ uprobe ∈ operatorUprobes,
      process.hasSymbol place uprobe.symbol = true →
        final.links uprobe.program = some ⟨place, uprobe.symbol, uprobe.retprobe⟩

/-- `attach_uprobes` works exactly if, in case the mandatory functions are
there, `libstdc++` is found in the maps, or the executable has `operator new`
and no operator of the target is in another place than the path of the
executable as it is read. -/
theorem attach_uprobes_works_iff
    (skel : Skel)
    (readable : process.exe = some exe) :
    AttachesFully process exe skel ↔
      (process.HasMandatory → isLibraryLoaded process.maps "libstdc++".toList = true ∨
        process.hasSymbol (exe.take 255) "_Znwm".toList = true ∧
          ∀ place, process.OperatorPlace exe place → place ≠ exe.take 255 →
            ∀ uprobe ∈ operatorUprobes, process.hasSymbol place uprobe.symbol = false) := by
  have different : (operatorUprobes.map Uprobe.program).Nodup := by decide
  constructor
  · intro works mandatory
    by_cases gets : GetsThrough process exe
    · obtain ⟨middle, run⟩ := @attachUprobes_of_getsThrough process skel exe readable mandatory gets
      by_cases loaded : isLibraryLoaded process.maps "libstdc++".toList = true
      · exact .inl loaded
      · refine .inr ⟨gets.resolve_left loaded, fun place placed elsewhere uprobe member => ?_⟩
        refine Bool.eq_false_iff.mpr fun has => elsewhere ?_
        have link := works.operators _ run place placed uprobe member has
        rw [links_foldl_attach different member, attachedPlace, if_neg loaded] at link
        exact congrArg Link.binary (linkOf_eq_some link)
    · obtain ⟨code, fails, nonzero⟩ :=
        @attachUprobes_of_not_getsThrough process skel exe readable mandatory gets
      have zero := works.returns.mpr mandatory
      rw [fails] at zero
      exact absurd zero nonzero
  · intro condition
    by_cases mandatory : process.HasMandatory
    · have gets : GetsThrough process exe := (condition mandatory).imp_right And.left
      obtain ⟨middle, run⟩ := @attachUprobes_of_getsThrough process skel exe readable mandatory gets
      refine ⟨iff_of_true (by rw [run]; rfl) mandatory, ?_⟩
      intro final reaches place placed uprobe member has
      rw [run] at reaches
      cases reaches
      have attached : place = attachedPlace process exe := by
        unfold attachedPlace
        by_cases loaded : isLibraryLoaded process.maps "libstdc++".toList = true
        · rw [if_pos loaded]
          cases placed with
          | library => rfl
          | executable unused => exact absurd (usesLibrary_of_isLibraryLoaded loaded) unused
        · -- the operators are attached to the executable, wherever those of the target are
          rw [if_neg loaded]
          by_contra elsewhere
          have none := ((condition mandatory).resolve_left loaded).2 place placed elsewhere
          rw [none uprobe member] at has
          cases has
      rw [links_foldl_attach different member, ← attached, linkOf, if_pos has]
    · obtain ⟨code, fails, nonzero⟩ := @attachUprobes_of_not_hasMandatory process skel mandatory
      refine ⟨iff_of_false (by rwa [fails]) mandatory, fun final reaches => ?_⟩
      rw [fails] at reaches
      cases reaches

end Attach

/-! ## A target in C++ and one in C -/

/-- A target that has mapped its executable and `libstdc++`, and finds every
symbol. -/
def cppTarget : Process where
  maps := some "1000-2000 r-xp 0 8:1 5 /test_cpp\n3000-4000 r-xp 0 8:1 6 /libstdc++.so.6\n".toList
  exe := some "/test_cpp".toList
  hasSymbol := fun _ _ => true
  attachErrno := fun _ _ => 2
  attachErrno_pos := fun _ _ => Nat.two_pos

/-- A target that has mapped its executable and the C library, with no operator
anywhere. -/
def cTarget : Process where
  maps := some "1000-2000 r-xp 0 8:1 5 /leak_test\n3000-4000 r-xp 0 8:1 6 /libc.so.6\n".toList
  exe := some "/leak_test".toList
  hasSymbol := fun binary symbol =>
    binary = libc && !operatorUprobes.any fun uprobe => uprobe.symbol = symbol
  attachErrno := fun _ _ => 2
  attachErrno_pos := fun _ _ => Nat.two_pos

/-- Nothing is attached. -/
def Skel.start : Skel where
  links := fun _ => none
  errno := 0

theorem attach_uprobes_works_iff_cppTarget :
    AttachesFully cppTarget "/test_cpp".toList .start :=
  (attach_uprobes_works_iff .start rfl).mpr fun _ => .inl (by decide +kernel)

/-- The target has all mandatory functions, and `attach_uprobes` fails for want of
`operator new`. -/
theorem cTarget_not_attached :
    cTarget.exe = some "/leak_test".toList ∧ cTarget.HasMandatory ∧
      returnValue (attachUprobes cTarget .start) ≠ 0 ∧
      ¬AttachesFully cTarget "/leak_test".toList .start := by
  have mandatory : cTarget.HasMandatory := by
    unfold Process.HasMandatory
    decide +kernel
  have fails : returnValue (attachUprobes cTarget .start) ≠ 0 := by decide +kernel
  exact ⟨rfl, mandatory, fails, fun works => fails (works.returns.mpr mandatory)⟩

end Loader
end Memleak
end EbpfHub
