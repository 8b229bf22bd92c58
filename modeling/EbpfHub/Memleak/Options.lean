import EbpfHub.Foundations.Strtol
import Mathlib.Data.BitVec

/-!
# The numeric options

`memleak.c` reads its numbers with `strtol`, checks the `long` that it returns
and stores it in an `int`.  What follows the number in the text is not looked
at, and a number that does not fit the field is cut.
-/

namespace EbpfHub
namespace Memleak

open Foundations

/-! ## The parser -/

/-- The fields of `struct env` that options set. -/
structure Env where
  interval : BitVec 32
  nrIntervals : BitVec 32
  pid : BitVec 32
  deriving DecidableEq

/-- `env` before the options are parsed. -/
def Env.initial : Env where
  interval := 5
  nrIntervals := -1
  pid := -1

/-- `env`, and the static `pos_args` of `argp_parse_arg`. -/
structure Options where
  env : Env
  posArgs : Nat
  deriving DecidableEq

/-- The key of the option `-p`. -/
def keyPid : Int := 'p'.toNat

/-- `ARGP_KEY_ARG`. -/
def argpKeyArg : Int := 0

/-- `ARGP_ERR_UNKNOWN`. -/
def argpErrUnknown : Int := 7

/-- `argp_parse_long`: the number, or what is printed before `argp_usage` ends
the program. -/
def argpParseLong (key : Int) (arg : List Char) : Except (List Char) Int :=
  match Strtol.strtol arg with
  | (temp, failed) =>
      if failed = true ∨ temp ≤ 0 then
        .error ("error arg:".toList ++ Char.ofNat (key % 256).toNat :: ' ' :: arg ++ ['\n'])
      else .ok temp

/-- `argp_parse_arg`: the options and the value that it returns, or what is
printed before `argp_usage` ends the program. -/
def argpParseArg
    (options : Options)
    (key : Int)
    (arg : List Char) : Except (List Char) (Options × Int) :=
  if key = keyPid then
    (argpParseLong key arg).map fun temp =>
      ({ options with env := { options.env with pid := BitVec.ofInt 32 temp } }, 0)
  else if key = argpKeyArg then
    let posArgs := options.posArgs + 1
    if posArgs = 1 then
      (argpParseLong key arg).map fun temp =>
        (⟨{ options.env with interval := BitVec.ofInt 32 temp }, posArgs⟩, 0)
    else if posArgs = 2 then
      (argpParseLong key arg).map fun temp =>
        (⟨{ options.env with nrIntervals := BitVec.ofInt 32 temp }, posArgs⟩, 0)
    else .error ("Unrecognized positional argument: ".toList ++ arg ++ ['\n'])
  else .ok (options, argpErrUnknown)

/-! ## What is accepted -/

/-- A number is accepted exactly when it is positive, a `long`, and that of the
numeral at the beginning of the text. -/
theorem argpParseLong_eq_ok_iff
    {key temp : Int}
    {arg : List Char} :
    argpParseLong key arg = .ok temp ↔
      0 < temp ∧ (∃ rest, Strtol.Begins arg temp rest) ∧ temp ≤ Strtol.longMax := by
  have accepts : argpParseLong key arg = .ok temp ↔
      0 < temp ∧ Strtol.strtol arg = (temp, false) := by
    unfold argpParseLong
    rcases Strtol.strtol arg with ⟨value, failed⟩
    dsimp only
    split
    · next rejected =>
      refine iff_of_false (fun accepted => by cases accepted) ?_
      rintro ⟨positive, same⟩
      cases same
      rcases rejected with failed | notPositive
      · cases failed
      · omega
    · next accepted =>
      obtain ⟨succeeds, positive⟩ := not_or.mp accepted
      obtain rfl := Bool.eq_false_iff.mpr succeeds
      constructor
      · intro same
        cases same
        exact ⟨Int.not_le.mp positive, rfl⟩
      · rintro ⟨-, same⟩
        cases same
        rfl
  rw [accepts]
  exact and_congr_right fun positive => Strtol.strtol_eq_iff positive

/-! ## What is stored -/

/-- A field that an option sets. -/
inductive Field
  | pid
  | interval
  | nrIntervals
  deriving DecidableEq

namespace Env

/-- The value of a field. -/
def get (env : Env) : Field → BitVec 32
  | .pid => env.pid
  | .interval => env.interval
  | .nrIntervals => env.nrIntervals

/-- Set a field. -/
def set (env : Env) (field : Field) (value : BitVec 32) : Env :=
  match field with
  | .pid => { env with pid := value }
  | .interval => { env with interval := value }
  | .nrIntervals => { env with nrIntervals := value }

@[simp] theorem get_set_self (env : Env) (field : Field) (value : BitVec 32) :
    (env.set field value).get field = value := by
  cases field with
  | pid => rfl
  | interval => rfl
  | nrIntervals => rfl

theorem get_set_of_ne
    {field other : Field}
    (different : other ≠ field)
    (env : Env)
    (value : BitVec 32) :
    (env.set field value).get other = env.get other := by
  cases field with
  | pid => cases other <;> first | rfl | exact absurd rfl different
  | interval => cases other <;> first | rfl | exact absurd rfl different
  | nrIntervals => cases other <;> first | rfl | exact absurd rfl different

end Env

/-- The key gives the number of a field: `-p`, or one of the first two
positional arguments. -/
inductive Gives : Options → Int → Field → Prop
  | pid (options : Options) : Gives options keyPid .pid
  | interval {options : Options} : options.posArgs = 0 → Gives options argpKeyArg .interval
  | nrIntervals {options : Options} : options.posArgs = 1 → Gives options argpKeyArg .nrIntervals

section Stored

variable {options : Options} {key : Int} {field : Field} {arg : List Char}

/-- The parser stores the number in the field, cut to an `int`. -/
theorem argpParseArg_of_gives (gives : Gives options key field) :
    ∃ posArgs, argpParseArg options key arg = (argpParseLong key arg).map fun temp =>
      (⟨options.env.set field (BitVec.ofInt 32 temp), posArgs⟩, 0) := by
  have notPid : ¬argpKeyArg = keyPid := by decide
  cases gives with
  | pid => exact ⟨options.posArgs, if_pos rfl⟩
  | interval first =>
      refine ⟨1, ?_⟩
      rw [argpParseArg, if_neg notPid, if_pos rfl, first]
      rfl
  | nrIntervals second =>
      refine ⟨2, ?_⟩
      rw [argpParseArg, if_neg notPid, if_pos rfl, second]
      rfl

/-- The argument is rejected, or the whole of it is the numeral of the positive
number that is stored in the field, and no other field changes. -/
def MeansTyped (options : Options) (key : Int) (field : Field) (arg : List Char) : Prop :=
  (∃ message, argpParseArg options key arg = .error message) ∨
    ∃ next value, argpParseArg options key arg = .ok (next, 0) ∧ 0 < value ∧
      Strtol.Denotes arg value ∧ (next.env.get field).toInt = value ∧
        ∀ other, other ≠ field → next.env.get other = options.env.get other

/-- The number of an argument means what was typed exactly if the numeral at its
beginning, in case its number is positive and a `long`, is all of it and its
number is an `int`. -/
theorem numeric_option_iff
    (gives : Gives options key field)
    (arg : List Char) :
    MeansTyped options key field arg ↔
      ∀ value rest, Strtol.Begins arg value rest → 0 < value → value ≤ Strtol.longMax →
        rest = [] ∧ value ≤ 2 ^ 31 - 1 := by
  obtain ⟨posArgs, parse⟩ := @argpParseArg_of_gives options key field arg gives
  unfold MeansTyped
  rw [parse]
  constructor
  · rintro means value rest begins positive fits
    have accepted := (@argpParseLong_eq_ok_iff key value arg).mpr ⟨positive, ⟨rest, begins⟩, fits⟩
    rw [accepted] at means
    rcases means with ⟨message, rejects⟩ | ⟨next, typed, stores, -, denotes, stored, -⟩
    · cases rejects
    · cases stores
      obtain ⟨rfl, rfl⟩ := begins.unique denotes
      refine ⟨rfl, ?_⟩
      rw [Env.get_set_self] at stored
      have bound := BitVec.toInt_lt (x := BitVec.ofInt 32 value)
      omega
  · intro condition
    cases result : argpParseLong key arg with
    | error message => exact .inl ⟨message, rfl⟩
    | ok value =>
        obtain ⟨positive, ⟨rest, begins⟩, fits⟩ := argpParseLong_eq_ok_iff.mp result
        obtain ⟨rfl, small⟩ := condition value rest begins positive fits
        refine .inr ⟨_, value, rfl, positive, begins, ?_, fun other different => ?_⟩
        · rw [Env.get_set_self]
          exact BitVec.toInt_ofInt_eq_self (by decide) (by omega) (by omega)
        · exact Env.get_set_of_ne different _ _

end Stored

/-! ## Accepted texts -/

/-- The options before the first is parsed. -/
def Options.initial : Options := ⟨.initial, 0⟩

/-- The process `12` means what was typed, as it is all of the argument. -/
theorem numeric_option_iff_twelve :
    MeansTyped .initial keyPid .pid "12".toList := by
  refine (numeric_option_iff (.pid _) "12".toList).mpr fun value rest begins _ _ => ?_
  have whole : Strtol.Begins "12".toList 12 [] := Strtol.readNumeral_eq_some_iff.mp rfl
  obtain ⟨rfl, rfl⟩ := begins.unique whole
  exact ⟨rfl, by decide⟩

/-- The process `12abc` is accepted as 12, and the process `4294967297` as 1. -/
theorem trailing_and_truncated_accepted :
    argpParseArg .initial keyPid "12abc".toList = .ok (⟨⟨5, -1, 12⟩, 0⟩, 0) ∧
      argpParseArg .initial keyPid "4294967297".toList = .ok (⟨⟨5, -1, 1⟩, 0⟩, 0) ∧
      ¬MeansTyped .initial keyPid .pid "12abc".toList ∧
      ¬MeansTyped .initial keyPid .pid "4294967297".toList := by
  have trailing : argpParseArg .initial keyPid "12abc".toList = .ok (⟨⟨5, -1, 12⟩, 0⟩, 0) := rfl
  have truncated : argpParseArg .initial keyPid "4294967297".toList = .ok (⟨⟨5, -1, 1⟩, 0⟩, 0) :=
    rfl
  refine ⟨trailing, truncated, ?_, ?_⟩
  · rintro (⟨message, rejects⟩ | ⟨next, value, -, -, denotes, -⟩)
    · rw [trailing] at rejects
      cases rejects
    · have begins : Strtol.Begins "12abc".toList 12 "abc".toList :=
        Strtol.readNumeral_eq_some_iff.mp rfl
      cases (begins.unique denotes).2
  · rintro (⟨message, rejects⟩ | ⟨next, value, stores, -, denotes, stored, -⟩)
    · rw [truncated] at rejects
      cases rejects
    · rw [truncated] at stores
      cases stores
      have begins : Strtol.Begins "4294967297".toList 4294967297 [] :=
        Strtol.readNumeral_eq_some_iff.mp rfl
      rw [← (begins.unique denotes).1] at stored
      exact absurd stored (by decide)

end Memleak
end EbpfHub
