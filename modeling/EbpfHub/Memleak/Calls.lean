import EbpfHub.Memleak.Refinement

/-!
# What the traced program asks for and gets

The requested size of a call as a number, when the `u64` that the entry program
records is that number, and the pointer that the call returns.
-/

namespace EbpfHub
namespace Memleak

namespace Call

/-- The number of bytes that the call asks for. -/
def requested : Call → Nat
  | .calloc nmemb size => nmemb.toNat * size.toNat
  | call => call.size.toNat

/-- The requested size does not fit the type of sizes.  Only `calloc`, which
multiplies, can ask for so much; it then fails. -/
def Overflows (call : Call) : Prop := 2 ^ 64 ≤ call.requested

instance (call : Call) : Decidable call.Overflows :=
  inferInstanceAs (Decidable (_ ≤ _))

/-- The recorded size is the requested one unless that overflows. -/
theorem size_toNat_of_not_overflows
    {call : Call}
    (fits : ¬call.Overflows) :
    call.size.toNat = call.requested := by
  unfold Overflows at fits
  cases call with
  | calloc nmemb size =>
      simp only [requested, Call.size, BitVec.toNat_mul] at fits ⊢
      exact Nat.mod_eq_of_lt (by omega)
  | _ => rfl

/-- The pointer that a call returns, seen from its exit. -/
def returns (call : Call) (ctx : Context) : Option U64 :=
  match call.memptr with
  | none => some ctx.rc
  | some memptr => ctx.readUser memptr

/-- The call returns the block at the address.  `posix_memalign` stores a block
only if its own result, an `int`, is zero. -/
def ReturnsBlock (call : Call) (ctx : Context) (address : U64) : Prop :=
  call.returns ctx = some address ∧ Recordable address ∧
    (call.memptr ≠ none → ctx.rc.setWidth 32 = (0 : U32))

instance (call : Call) (ctx : Context) (address : U64) :
    Decidable (call.ReturnsBlock ctx address) :=
  inferInstanceAs (Decidable (_ ∧ _))

end Call

/-- The result pointer of a `posix_memalign` call is on record. -/
def RemembersResult (thread : ThreadState) (call : Call) : Prop :=
  ∀ memptr, call.memptr = some memptr → thread.memptr = some memptr

/-- An exit finds the address that its call returns. -/
theorem exitAddress_of_returns
    {call : Call}
    {ctx : Context}
    {address : U64}
    {thread : ThreadState}
    (returns : call.returns ctx = some address)
    (remembers : RemembersResult thread call) :
    Event.exitAddress ⟨ctx, .exit call.fn⟩ thread = some address := by
  unfold Call.returns at returns
  have isMemalign := call.memptr_isSome_iff
  cases result : call.memptr with
  | none =>
      rw [result] at returns isMemalign
      have plain : call.fn ≠ .posixMemalign := fun same => by simp [same] at isMemalign
      simpa [Event.exitAddress, plain] using returns
  | some memptr =>
      rw [result] at returns isMemalign
      have memalign : call.fn = .posixMemalign := isMemalign.mp rfl
      simpa [Event.exitAddress, memalign, remembers memptr result] using returns

/-- The slot that an accepted entry fills records the size of its call. -/
theorem captureOf_size
    {rodata : Rodata}
    {ctx : Context}
    {size : U64}
    {sinfo : SizeInfo}
    (captured : captureOf rodata ctx size = some sinfo) :
    sinfo.size = size := by
  unfold captureOf at captured
  split at captured
  · obtain rfl := Option.some.inj captured
    exact captureSizeInfo_size size ctx.stackId ctx.sp ctx.readUser
  · cases captured

/-- The slot that an accepted entry fills records the stack of its event. -/
theorem captureOf_stackId
    {rodata : Rodata}
    {ctx : Context}
    {size : U64}
    {sinfo : SizeInfo}
    (captured : captureOf rodata ctx size = some sinfo) :
    sinfo.stackId = ctx.stackId := by
  unfold captureOf at captured
  split at captured
  · obtain rfl := Option.some.inj captured
    exact captureSizeInfo_stackId size ctx.stackId ctx.sp ctx.readUser
  · cases captured

/-- Without sampling, sizes within the bounds are accepted. -/
theorem Rodata.accepts_of_bounds
    {rodata : Rodata}
    {size ktime : U64}
    (rate : rodata.sampleRate = 1)
    (lower : rodata.minSize.toNat ≤ size.toNat)
    (upper : size.toNat ≤ rodata.maxSize.toNat) :
    rodata.Accepts size ktime := by
  constructor
  · rintro (small | large)
    · have := BitVec.lt_def.mp small
      omega
    · have := BitVec.lt_def.mp large
      omega
  · rintro ⟨sampling, _⟩
    rw [rate] at sampling
    exact absurd sampling (by decide)

end Memleak
end EbpfHub
