import EbpfHub.Memleak.Loader
import EbpfHub.Memleak.Options
import EbpfHub.Memleak.Session

/-!
# The program memleak

`main` of `memleak.c`, from the arguments to the value that it returns.  It ends
with a usage message, at the first call that fails, or after its loop, and gives
back what it has acquired wherever it goes to `cleanup`.
-/

namespace EbpfHub
namespace Memleak

open Foundations

/-! ## The arguments -/

/-- An argument as `argp_parse` hands it to `argp_parse_arg`: that of an option
`-p`, or a positional one. -/
inductive Argument
  | pid (arg : List Char)
  | positional (arg : List Char)

namespace Argument

/-- The key of the call of `argp_parse_arg`. -/
def key : Argument → Int
  | .pid _ => keyPid
  | .positional _ => argpKeyArg

/-- The text of the argument. -/
def arg : Argument → List Char
  | .pid arg => arg
  | .positional arg => arg

end Argument

/-- The calls of `argp_parse_arg`, which returns 0 for both keys, up to one that
ends the program. -/
def argpParse (arguments : List Argument) (options : Options) : Except (List Char) Options :=
  arguments.foldlM
    (fun options argument => (argpParseArg options argument.key argument.arg).map Prod.fst) options

/-! ## Before the loop -/

/-- `env.min_age_ns`, which no option sets. -/
def minAgeNs : U64 := 500

/-- `ENOMEM`. -/
def enomem : Int := 12

/-- What the calls of `main` find. -/
structure Outside where
  /-- `argp_parse` fails for another reason than its arguments. -/
  argpFails : Bool
  /-- `errno` after a call of `sigaction` that fails. -/
  sigactionErrno : Option Nat
  sigactionErrno_pos : ∀ errno ∈ sigactionErrno, 0 < errno
  /-- `sysconf(_SC_PAGE_SIZE)`. -/
  pageSize : U64
  stackAllocated : Bool
  allocsAllocated : Bool
  /-- `memleak_bpf__open` gives an object. -/
  opened : Bool
  /-- `memleak_bpf__load`. -/
  load : Int
  /-- The process with an identifier. -/
  process : U32 → Loader.Process
  /-- `memleak_bpf__attach`. -/
  attach : Int
  /-- `syms_cache__new` gives a cache. -/
  cacheAllocated : Bool
  /-- A signal has arrived before the loop. -/
  signalled : Bool

/-- What `main` acquires. -/
inductive Resource
  | stack
  | allocs
  | skel
  | symsCache
  deriving DecidableEq

/-- The part of `main` between the arguments and the loop: the pointers that are
not null after it, and the value of `ret` and the message with which it goes to
`cleanup`, or the skeleton. -/
def setUp (outside : Outside) (pid : U32) :
    List Resource × Except (Int × List Char) Loader.Skel :=
  match outside.sigactionErrno with
  | some errno => ([], .error (-errno, "failed to set up signal handling".toList))
  | none =>
      if pid.toInt < 0 then
        ([], .error (1, "PID is required. Use -p <PID>\n".toList))
      else if outside.stackAllocated = false then
        ([], .error (-enomem, "failed to allocate stack array\n".toList))
      else if outside.allocsAllocated = false then
        ([.stack], .error (-enomem, "failed to allocate array\n".toList))
      else if outside.opened = false then
        ([.stack, .allocs], .error (1, "failed to open bpf object\n".toList))
      else if outside.load ≠ 0 then
        ([.stack, .allocs, .skel], .error (outside.load, "failed to load bpf object\n".toList))
      else
        match Loader.attachUprobes (outside.process pid) .start with
        | .error code =>
            ([.stack, .allocs, .skel], .error (code, "failed to attach uprobes\n".toList))
        | .ok skel =>
            if outside.attach ≠ 0 then
              ([.stack, .allocs, .skel],
                .error (outside.attach, "failed to attach bpf program(s)\n".toList))
            else if outside.cacheAllocated = false then
              ([.stack, .allocs, .skel],
                .error (-enomem, "Failed to create syms_cache\n".toList))
            else ([.stack, .allocs, .skel, .symsCache], .ok skel)

/-! ## `main` -/

/-- What `main` does. -/
inductive Effect
  | acquire (resource : Resource)
  /-- A message about an error; `perror` writes that of `errno` behind it. -/
  | message (text : List Char)
  /-- `print_headers`. -/
  | attaching (pid : U32)
  | sleep (seconds : U32)
  | report (lines : List ReportLine)
  | release (resource : Resource)

/-- How `main` ends, or where it is. -/
inductive Ending
  /-- `argp_usage` has ended the program. -/
  | usage
  | returned (ret : Int)
  /-- The loop waits. -/
  | waiting
  /-- `env.nr_intervals--` leaves the type `int`. -/
  | overflow
  deriving DecidableEq

/-- What `main` has done, and how it ends. -/
structure MainRun where
  effects : List Effect
  ending : Ending

/-- The calls at the label `cleanup`, with the pointers that are not null. -/
def cleanup (held : List Resource) : List Effect :=
  ([Resource.symsCache, .skel, .allocs, .stack].filter (· ∈ held)).map .release

/-- What the loop does with options. -/
def Session.effects (session : Session) (env : Env) : List Effect :=
  .attaching env.pid ::
    session.reports.flatMap fun lines => [.sleep env.interval, .report lines]

/-- `main` from its loop on: `cleanup` is reached where the loop ends. -/
def afterSetUp (held : List Resource) (env : Env) (session : Session) : MainRun :=
  let effects := held.map .acquire ++ session.effects env
  match session.progress with
  | .ended => ⟨effects ++ cleanup held, .returned 0⟩
  | .waiting => ⟨effects, .waiting⟩
  | .overflow => ⟨effects, .overflow⟩

section Main

variable {σ : Type} (getSyms : σ → σ × Bool) (mapAddrDso : σ → U64 → σ × Option Symbols.SymInfo)
variable (qsort : Qsort)

/-- The loop of `main` with options. -/
def sessionOf
    (env : Env)
    (outside : Outside)
    (globals : Globals)
    (syms : σ)
    (intervals : List Interval) : Session :=
  mainLoop getSyms mapAddrDso minAgeNs qsort outside.signalled env.nrIntervals.toInt globals syms
    intervals

/-- `main`, over what the passes of its loop find. -/
def main
    (arguments : List Argument)
    (outside : Outside)
    (globals : Globals)
    (syms : σ)
    (intervals : List Interval) : MainRun :=
  match argpParse arguments .initial with
  | .error text => ⟨[.message text], .usage⟩
  | .ok options =>
      if outside.argpFails then ⟨[.message "failed to parse args\n".toList], .returned 0⟩
      else
        match setUp outside options.env.pid with
        | (held, .error (ret, text)) =>
            ⟨held.map .acquire ++ [.message text] ++ cleanup held, .returned ret⟩
        | (held, .ok _) =>
            afterSetUp held options.env
              (sessionOf getSyms mapAddrDso qsort options.env outside globals syms intervals)

end Main

/-! ## What the arguments say -/

/-- The texts of the options `-p`. -/
def pidArgs (arguments : List Argument) : List (List Char) :=
  arguments.filterMap fun argument =>
    match argument with
    | .pid arg => some arg
    | .positional _ => none

/-- The texts of the positional arguments. -/
def positionalArgs (arguments : List Argument) : List (List Char) :=
  arguments.filterMap fun argument =>
    match argument with
    | .pid _ => none
    | .positional arg => some arg

/-- The text begins with the numeral of a positive `long`. -/
def IsPositive (arg : List Char) : Prop :=
  ∃ value, 0 < value ∧ (∃ rest, Strtol.Begins arg value rest) ∧ value ≤ Strtol.longMax

/-- The number at the beginning of the text, cut to an `int`. -/
def intOf (arg : List Char) : U32 := BitVec.ofInt 32 (Strtol.strtol arg).1

/-- The last `-p` says which process is traced, the first positional argument how
long an interval is, and the second one how many there are. -/
def envOf (arguments : List Argument) : Env where
  interval := ((positionalArgs arguments)[0]?.map intOf).getD 5
  nrIntervals := ((positionalArgs arguments)[1]?.map intOf).getD (-1)
  pid := ((pidArgs arguments).getLast?.map intOf).getD (-1)

/-- Every argument is a positive number, and at most two are positional. -/
structure WellTyped (arguments : List Argument) : Prop where
  positive : ∀ argument ∈ arguments, IsPositive argument.arg
  few : (positionalArgs arguments).length ≤ 2

/-- A positive number is accepted, and it is the one that `strtol` returns. -/
theorem argpParseLong_of_isPositive
    {arg : List Char}
    (positive : IsPositive arg)
    (key : Int) :
    argpParseLong key arg = .ok (Strtol.strtol arg).1 := by
  obtain ⟨value, above, begins, fits⟩ := positive
  have read : Strtol.strtol arg = (value, false) :=
    (Strtol.strtol_eq_iff above).mpr ⟨begins, fits⟩
  rw [read]
  exact argpParseLong_eq_ok_iff.mpr ⟨above, begins, fits⟩

/-- Any other text is rejected. -/
theorem argpParseLong_of_not_isPositive
    {arg : List Char}
    (other : ¬IsPositive arg)
    (key : Int) :
    ∃ text, argpParseLong key arg = .error text := by
  cases parsed : argpParseLong key arg with
  | error text => exact ⟨text, rfl⟩
  | ok value => exact absurd ⟨value, argpParseLong_eq_ok_iff.mp parsed⟩ other

/-- `-p` stores its number. -/
theorem argpParseArg_pid (options : Options) (arg : List Char) :
    argpParseArg options keyPid arg = (argpParseLong keyPid arg).map fun temp =>
      ({ options with env := { options.env with pid := BitVec.ofInt 32 temp } }, 0) :=
  if_pos rfl

section Positional

variable {options : Options} (arg : List Char)

/-- The first positional argument stores its number. -/
theorem argpParseArg_interval (first : options.posArgs = 0) :
    argpParseArg options argpKeyArg arg = (argpParseLong argpKeyArg arg).map fun temp =>
      (⟨{ options.env with interval := BitVec.ofInt 32 temp }, 1⟩, 0) := by
  have notPid : ¬argpKeyArg = keyPid := by decide
  rw [argpParseArg, if_neg notPid, if_pos rfl, first]
  rfl

/-- The second one stores its number. -/
theorem argpParseArg_nrIntervals (second : options.posArgs = 1) :
    argpParseArg options argpKeyArg arg = (argpParseLong argpKeyArg arg).map fun temp =>
      (⟨{ options.env with nrIntervals := BitVec.ofInt 32 temp }, 2⟩, 0) := by
  have notPid : ¬argpKeyArg = keyPid := by decide
  rw [argpParseArg, if_neg notPid, if_pos rfl, second]
  rfl

/-- No further one is accepted. -/
theorem argpParseArg_third (third : 2 ≤ options.posArgs) :
    ∃ text, argpParseArg options argpKeyArg arg = .error text := by
  have notPid : ¬argpKeyArg = keyPid := by decide
  refine ⟨"Unrecognized positional argument: ".toList ++ arg ++ ['\n'], ?_⟩
  rw [argpParseArg, if_neg notPid, if_pos rfl]
  dsimp only
  rw [if_neg (by omega), if_neg (by omega)]

end Positional

theorem argpParse_append_singleton
    (front : List Argument)
    (last : Argument)
    (options : Options) :
    argpParse (front ++ [last]) options =
      (argpParse front options).bind fun options =>
        (argpParseArg options last.key last.arg).map Prod.fst := by
  unfold argpParse
  rw [List.foldlM_append]
  simp only [List.foldlM_cons, List.foldlM_nil, bind_pure]
  rfl

/-- One more argument is well typed exactly if it is positive, and not the third
positional one. -/
theorem wellTyped_append_singleton_iff
    {front : List Argument}
    {last : Argument} :
    WellTyped (front ++ [last]) ↔
      WellTyped front ∧ IsPositive last.arg ∧
        (positionalArgs front).length + (positionalArgs [last]).length ≤ 2 := by
  have lengths : (positionalArgs (front ++ [last])).length =
      (positionalArgs front).length + (positionalArgs [last]).length := by
    rw [positionalArgs, List.filterMap_append, List.length_append]
    rfl
  constructor
  · rintro ⟨positive, few⟩
    rw [lengths] at few
    rw [List.forall_mem_append] at positive
    exact ⟨⟨positive.1, by omega⟩, positive.2 last List.mem_cons_self, few⟩
  · rintro ⟨⟨positive, -⟩, lastPositive, few⟩
    refine ⟨List.forall_mem_append.mpr ⟨positive, ?_⟩, by rw [lengths]; exact few⟩
    intro argument member
    rwa [List.mem_singleton.mp member]

/-- The options after arguments that are well typed. -/
def optionsOf (arguments : List Argument) : Options :=
  ⟨envOf arguments, (positionalArgs arguments).length⟩

/-- One more argument that is well typed is stored. -/
theorem argpParseArg_of_wellTyped
    {front : List Argument}
    {last : Argument}
    (typed : WellTyped (front ++ [last])) :
    (argpParseArg (optionsOf front) last.key last.arg).map Prod.fst =
      .ok (optionsOf (front ++ [last])) := by
  obtain ⟨-, positive, few⟩ := wellTyped_append_singleton_iff.mp typed
  have parsed := argpParseLong_of_isPositive positive
  cases last with
  | pid arg =>
      have read : argpParseLong keyPid arg = .ok (Strtol.strtol arg).1 := parsed keyPid
      unfold Argument.key Argument.arg
      rw [argpParseArg_pid, read]
      simp [optionsOf, envOf, pidArgs, positionalArgs, Except.map, intOf]
  | positional arg =>
      have read : argpParseLong argpKeyArg arg = .ok (Strtol.strtol arg).1 := parsed argpKeyArg
      have grown : positionalArgs (front ++ [.positional arg]) = positionalArgs front ++ [arg] := by
        simp [positionalArgs]
      have same : pidArgs (front ++ [.positional arg]) = pidArgs front := by
        simp [pidArgs]
      unfold Argument.key Argument.arg
      match others : positionalArgs front, few with
      | [], _ =>
          have first : (optionsOf front).posArgs = 0 := by rw [optionsOf, others]; rfl
          rw [argpParseArg_interval arg first, read]
          simp [optionsOf, envOf, grown, same, others, Except.map, intOf]
      | [interval], _ =>
          have second : (optionsOf front).posArgs = 1 := by rw [optionsOf, others]; rfl
          rw [argpParseArg_nrIntervals arg second, read]
          simp [optionsOf, envOf, grown, same, others, Except.map, intOf]
      | _ :: _ :: _, few => simp [positionalArgs] at few

/-- One more argument that is not well typed is rejected. -/
theorem argpParseArg_of_not_wellTyped
    {front : List Argument}
    {last : Argument}
    (typed : WellTyped front)
    (other : ¬WellTyped (front ++ [last])) :
    ∃ text, argpParseArg (optionsOf front) last.key last.arg = .error text := by
  have bad : ¬IsPositive last.arg ∨
      2 < (positionalArgs front).length + (positionalArgs [last]).length := by
    by_contra good
    obtain ⟨positive, few⟩ := not_or.mp good
    exact other (wellTyped_append_singleton_iff.mpr
      ⟨typed, not_not.mp positive, Nat.not_lt.mp few⟩)
  cases last with
  | pid arg =>
      have few := typed.few
      have wrong : ¬IsPositive arg := bad.resolve_right (Nat.not_lt.mpr few)
      obtain ⟨text, rejected⟩ := argpParseLong_of_not_isPositive wrong keyPid
      refine ⟨text, (argpParseArg_pid _ arg).trans ?_⟩
      rw [rejected]
      rfl
  | positional arg =>
      rcases Nat.lt_or_ge (positionalArgs front).length 2 with below | full
      · have wrong : ¬IsPositive arg := bad.resolve_right (Nat.not_lt.mpr below)
        obtain ⟨text, rejected⟩ := argpParseLong_of_not_isPositive wrong argpKeyArg
        rcases Nat.le_one_iff_eq_zero_or_eq_one.mp (Nat.le_of_lt_succ below) with none | one
        · refine ⟨text, (argpParseArg_interval arg none).trans ?_⟩
          rw [rejected]
          rfl
        · refine ⟨text, (argpParseArg_nrIntervals arg one).trans ?_⟩
          rw [rejected]
          rfl
      · exact argpParseArg_third arg full

/-- The arguments are accepted exactly if they are well typed, and the options
are then those that they say. -/
theorem argpParse_spec (arguments : List Argument) :
    (WellTyped arguments → argpParse arguments .initial = .ok (optionsOf arguments)) ∧
      (¬WellTyped arguments → ∃ text, argpParse arguments .initial = .error text) := by
  induction arguments using List.reverseRecOn with
  | nil => exact ⟨fun _ => rfl, fun other => absurd ⟨by simp, by decide⟩ other⟩
  | append_singleton front last inductionHypothesis =>
      rw [argpParse_append_singleton]
      by_cases typed : WellTyped front
      · rw [inductionHypothesis.1 typed]
        refine ⟨argpParseArg_of_wellTyped, fun other => ?_⟩
        obtain ⟨text, rejected⟩ := argpParseArg_of_not_wellTyped typed other
        exact ⟨text, congrArg (Except.map Prod.fst) rejected⟩
      · obtain ⟨text, rejected⟩ := inductionHypothesis.2 typed
        rw [rejected]
        exact ⟨fun both => absurd (wellTyped_append_singleton_iff.mp both).1 typed,
          fun _ => ⟨text, rfl⟩⟩

/-- The arguments `-p 1234 10 3`. -/
example : argpParse [.pid "1234".toList, .positional "10".toList, .positional "3".toList]
    .initial = .ok ⟨⟨10, 3, 1234⟩, 2⟩ := rfl

/-! ## When the loop is reached -/

/-- `attach_uprobes` works for the process: its C library has the mandatory
functions, and its maps mention `libstdc++` or its executable has
`operator new`. -/
structure Attachable (process : Loader.Process) : Prop where
  mandatory : process.HasMandatory
  operators : isLibraryLoaded process.maps "libstdc++".toList = true ∨
    ∃ exe, process.exe = some exe ∧ process.hasSymbol (exe.take 255) "_Znwm".toList = true

/-- `attach_uprobes` returns 0 for such a process. -/
theorem exists_attachUprobes
    {process : Loader.Process}
    (attachable : Attachable process)
    (skel : Loader.Skel) :
    ∃ final, Loader.attachUprobes process skel = .ok final := by
  obtain ⟨mandatory, library | ⟨exe, readable, new⟩⟩ := attachable
  · obtain ⟨middle, reaches⟩ := @Loader.exists_execAll_libcStatements process skel mandatory
    have attaches : Loader.execAll process Loader.libraryStatements middle = .ok _ :=
      Loader.execAll_attach Loader.libstdcxx Loader.operatorUprobes middle
    unfold Loader.attachUprobes
    rw [reaches]
    dsimp only
    rw [if_pos library]
    exact ⟨_, attaches⟩
  · obtain ⟨middle, attaches⟩ := @Loader.attachUprobes_of_getsThrough process skel exe readable
      mandatory (.inr new)
    exact ⟨_, attaches⟩

/-- For any other process it returns a value that is not 0. -/
theorem attachUprobes_of_not_attachable
    {process : Loader.Process}
    (other : ¬Attachable process)
    (skel : Loader.Skel) :
    ∃ code, Loader.attachUprobes process skel = .error code ∧ code ≠ 0 := by
  by_cases mandatory : process.HasMandatory
  · have nowhere := fun operators => other ⟨mandatory, operators⟩
    obtain ⟨missed, noNew⟩ := not_or.mp nowhere
    cases readable : process.exe with
    | none =>
        obtain ⟨middle, reaches⟩ := @Loader.exists_execAll_libcStatements process skel mandatory
        refine ⟨-1, ?_, by decide⟩
        unfold Loader.attachUprobes Loader.getPidExePath
        rw [reaches, readable]
        dsimp only
        rw [if_neg missed]
        rfl
    | some exe =>
        refine Loader.attachUprobes_of_not_getsThrough readable mandatory fun gets => ?_
        exact gets.elim missed fun new => noNew ⟨exe, readable, new⟩
  · exact Loader.attachUprobes_of_not_hasMandatory mandatory

namespace Outside

/-- Every call of `main` before the loop succeeds for the process. -/
structure Ready (outside : Outside) (pid : U32) : Prop where
  signals : outside.sigactionErrno = none
  typed : 0 ≤ pid.toInt
  stack : outside.stackAllocated = true
  allocs : outside.allocsAllocated = true
  opened : outside.opened = true
  load : outside.load = 0
  attachable : Attachable (outside.process pid)
  attach : outside.attach = 0
  cache : outside.cacheAllocated = true

end Outside

/-- What `main` acquires, in this order. -/
def acquisitions : List Resource := [.stack, .allocs, .skel, .symsCache]

/-- Where every call succeeds, all is acquired. -/
theorem setUp_of_ready
    {outside : Outside}
    {pid : U32}
    (ready : outside.Ready pid) :
    ∃ skel, setUp outside pid = (acquisitions, .ok skel) := by
  obtain ⟨skel, attached⟩ := exists_attachUprobes ready.attachable .start
  refine ⟨skel, ?_⟩
  unfold setUp
  rw [ready.signals]
  dsimp only
  rw [if_neg (Int.not_lt.mpr ready.typed), if_neg (by simp [ready.stack]),
    if_neg (by simp [ready.allocs]), if_neg (by simp [ready.opened]), if_neg (by simp [ready.load]),
    attached]
  dsimp only
  rw [if_neg (by simp [ready.attach]), if_neg (by simp [ready.cache])]
  rfl

/-- Elsewhere `main` goes to `cleanup` with the first part of it, and with a
value that is not 0. -/
theorem setUp_of_not_ready
    {outside : Outside}
    {pid : U32}
    (other : ¬outside.Ready pid) :
    ∃ held ret text, setUp outside pid = (held, .error (ret, text)) ∧ ret ≠ 0 ∧
      held <+: acquisitions := by
  unfold setUp
  cases signals : outside.sigactionErrno with
  | some errno =>
      have positive := outside.sigactionErrno_pos errno signals
      exact ⟨_, _, _, rfl, by omega, List.nil_prefix⟩
  | none =>
      dsimp only
      split
      · exact ⟨_, _, _, rfl, by decide, by decide⟩
      next negative =>
      split
      · exact ⟨_, _, _, rfl, by decide, by decide⟩
      next stack =>
      split
      · exact ⟨_, _, _, rfl, by decide, by decide⟩
      next allocs =>
      split
      · exact ⟨_, _, _, rfl, by decide, by decide⟩
      next opened =>
      split
      · next fails => exact ⟨_, _, _, rfl, fails, by decide⟩
      next load =>
      by_cases attachable : Attachable (outside.process pid)
      · obtain ⟨skel, attached⟩ := exists_attachUprobes attachable .start
        rw [attached]
        dsimp only
        split
        · next fails => exact ⟨_, _, _, rfl, fails, by decide⟩
        next attach =>
        split
        · exact ⟨_, _, _, rfl, by decide, by decide⟩
        next cache =>
        exact absurd
          { signals := signals
            typed := Int.not_lt.mp negative
            stack := Bool.eq_true_of_not_eq_false stack
            allocs := Bool.eq_true_of_not_eq_false allocs
            opened := Bool.eq_true_of_not_eq_false opened
            load := not_not.mp load
            attachable := attachable
            attach := not_not.mp attach
            cache := Bool.eq_true_of_not_eq_false cache } other
      · obtain ⟨code, fails, nonzero⟩ := attachUprobes_of_not_attachable attachable .start
        rw [fails]
        exact ⟨_, _, _, rfl, nonzero, by decide⟩

/-! ## What is given back -/

section Cases

variable {σ : Type} (getSyms : σ → σ × Bool) (mapAddrDso : σ → U64 → σ × Option Symbols.SymInfo)
variable (qsort : Qsort) {arguments : List Argument} {outside : Outside}
variable (globals : Globals) (syms : σ) (intervals : List Interval)

/-- Other arguments end the program. -/
theorem main_of_not_wellTyped (other : ¬WellTyped arguments) :
    ∃ text, main getSyms mapAddrDso qsort arguments outside globals syms intervals =
      ⟨[.message text], .usage⟩ := by
  obtain ⟨text, rejected⟩ := (argpParse_spec arguments).2 other
  refine ⟨text, ?_⟩
  rw [main, rejected]

/-- A failure of `argp_parse` itself is no failure of `main`. -/
theorem main_of_argpFails
    (typed : WellTyped arguments)
    (fails : outside.argpFails = true) :
    main getSyms mapAddrDso qsort arguments outside globals syms intervals =
      ⟨[.message "failed to parse args\n".toList], .returned 0⟩ := by
  rw [main, (argpParse_spec arguments).1 typed]
  dsimp only
  rw [if_pos fails]

/-- A call that fails is a failure of `main`. -/
theorem main_of_not_ready
    (typed : WellTyped arguments)
    (parses : outside.argpFails = false)
    (other : ¬outside.Ready (envOf arguments).pid) :
    ∃ held ret text, held <+: acquisitions ∧ ret ≠ 0 ∧
      main getSyms mapAddrDso qsort arguments outside globals syms intervals =
        ⟨held.map .acquire ++ [.message text] ++ cleanup held, .returned ret⟩ := by
  obtain ⟨held, ret, text, fails, nonzero, first⟩ := setUp_of_not_ready other
  refine ⟨held, ret, text, first, nonzero, ?_⟩
  rw [main, (argpParse_spec arguments).1 typed]
  dsimp only [optionsOf]
  rw [if_neg (by simp [parses]), fails]

/-- Where nothing fails, the loop is reached. -/
theorem main_of_ready
    (typed : WellTyped arguments)
    (parses : outside.argpFails = false)
    (ready : outside.Ready (envOf arguments).pid) :
    main getSyms mapAddrDso qsort arguments outside globals syms intervals =
      afterSetUp acquisitions (envOf arguments)
        (sessionOf getSyms mapAddrDso qsort (envOf arguments) outside globals syms intervals) := by
  obtain ⟨skel, reaches⟩ := setUp_of_ready ready
  rw [main, (argpParse_spec arguments).1 typed]
  dsimp only [optionsOf]
  rw [if_neg (by simp [parses]), reaches]

end Cases

end Memleak
end EbpfHub
