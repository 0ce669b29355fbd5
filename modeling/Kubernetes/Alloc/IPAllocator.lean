import Kubernetes.Alloc.AllocationBitmap
import Kubernetes.Go.Strconv

/-!
# `registry/core/service/ipallocator`: the service IP range

`New` sizes an `AllocationBitmap` for a CIDR: `RangeSize` addresses (capped at `65536` for
IPv6), less the network address and, for IPv4, the broadcast address; offset `0` of the
bitmap is the address after the network address.  The static band at the bottom of the
range has `calculateRangeOffset(cidr)` addresses, computed from the whole `RangeSize`.

An address is the number `BigForIP` gives it, and a CIDR its network address, its mask's
`ones` and `bits`, and its text.  A call that panics is the error `panic` with the
runtime's text.
-/

namespace Kubernetes
namespace IPAllocator

open Go Alloc AllocationBitmap

/-- A `net.IPNet`: the network address, the prefix length `ones` of the mask out of its
`bits` (`32` or `128`), and `String()`. -/
structure IPNet where
  ip : Nat
  ones : Nat
  bits : Nat
  text : String
  deriving DecidableEq, Repr

/-- `netutils.IsIPv6CIDR`. -/
def IPNet.isIPv6 (n : IPNet) : Bool :=
  n.bits == 128
attribute [grind] IPNet.isIPv6

/-- `IPNet.Contains`: the address shares the network's first `ones` bits. -/
def IPNet.contains (n : IPNet) (ip : Nat) : Bool :=
  decide (n.ip ≤ ip ∧ ip < n.ip + 2 ^ (n.bits - n.ones))
attribute [grind] IPNet.contains

/-- `netutils.RangeSize`: the number of addresses, `0` for IPv4 prefixes `/0`, `/1` and
IPv6 `/0`, `/1`, and `MaxInt64` from 63 host bits on. -/
def rangeSize (subnet : IPNet) : Int :=
  let hostBits := subnet.bits - subnet.ones
  if subnet.bits = 32 ∧ 31 ≤ hostBits ∨ subnet.bits = 128 ∧ 127 ≤ hostBits then 0
  else if 63 ≤ hostBits then maxInt64
  else 2 ^ hostBits
attribute [grind] rangeSize

/-- `calculateRangeOffset`: the size of the static band, `cidrSize / 16` clamped to
`[16, 256]`, and `0` below `16` addresses. -/
def calculateRangeOffset (cidr : IPNet) : Int :=
  let cidrSize := rangeSize cidr
  if cidrSize < 16 then 0
  else
    let offset := cidrSize / 16
    if offset < 16 then 16
    else if 256 < offset then 256
    else offset
attribute [grind] calculateRangeOffset

/-- The errors of the range. -/
inductive RangeError
  | notInRange (ip : Nat) (validRange : String)
  | allocated
  | full
  | allocator (text : String)
  | panic (text : String)
  deriving DecidableEq, Repr

/-- The texts of `ErrAllocated` and `ErrFull`. -/
def RangeError.text : RangeError → Option String
  | .allocated => some "provided IP is already allocated"
  | .full => some "range is full"
  | .allocator text => some text
  | _ => none
attribute [grind] RangeError.text

/-- `Range`, with the in-memory bitmap of `NewInMemory`. -/
structure Range where
  net : IPNet
  base : Nat
  max : Int
  alloc : AllocationBitmap
  deriving DecidableEq, Repr

/-- `NewInMemory(cidr)`, that is `New` with `NewAllocationMapWithOffset`. -/
def newInMemory (cidr : IPNet) : Range :=
  let max := rangeSize cidr
  let base := cidr.ip
  -- IPv6 ranges are capped; IPv4 ranges lose their broadcast address
  let max := if cidr.isIPv6 then (if 65536 < max then 65536 else max) else max - 1
  -- every range loses its network address
  let base := base + 1
  let max := max - 1
  let max := if 0 > max then 0 else max
  let offset := calculateRangeOffset cidr
  ⟨cidr, base, max, newAllocationMapWithOffset max cidr.text offset.toNat⟩
attribute [grind] newInMemory

namespace Range

/-- `Range.contains`: the offset of an address of the range, if it has one. -/
def contains (r : Range) (ip : Nat) : Option Int :=
  if !r.net.contains ip then none
  else
    let offset := (ip : Int) - r.base
    if offset < 0 ∨ r.max ≤ offset then none else some offset
attribute [grind] contains

/-- `Range.Allocate`. -/
def allocate (r : Range) (ip : Nat) : Except RangeError Range :=
  match r.contains ip with
  | none => .error (.notInRange ip r.net.text)
  | some offset =>
      match r.alloc.allocate offset with
      | .error e => .error (.allocator e)
      | .ok (false, _) => .error .allocated
      | .ok (true, alloc) => .ok { r with alloc }
attribute [grind] allocate

/-- `Range.AllocateNext`, with the generator's draws of the bitmap's strategy. -/
def allocateNext (r : Range) (draw₁ draw₂ : Nat) : Except RangeError (Nat × Range) :=
  match r.alloc.allocateNext draw₁ draw₂ with
  | .error e => .error (.panic e)
  | .ok none => .error .full
  | .ok (some (offset, alloc)) => .ok (r.base + offset, { r with alloc })
attribute [grind] allocateNext

/-- `Range.Release`: an address outside the range is ignored. -/
def release (r : Range) (ip : Nat) : Except RangeError Range :=
  match r.contains ip with
  | none => .ok r
  | some offset =>
      match r.alloc.release offset with
      | .error e => .error (.panic e)
      | .ok alloc => .ok { r with alloc }
attribute [grind] release

/-- `Range.Free`. -/
def free (r : Range) : Int :=
  r.alloc.free
attribute [grind] free

end Range

/-! ## The static band fits every range but those of 16 addresses -/

/-- `RangeSize` is `0`, `MaxInt64` or a power of two below `2^63`. -/
theorem rangeSize_cases (cidr : IPNet) :
    rangeSize cidr = 0 ∨ rangeSize cidr = maxInt64 ∨
      ∃ h, h < 63 ∧ rangeSize cidr = 2 ^ h := by
  unfold rangeSize
  dsimp only
  split_ifs with h₀ h₁
  · exact .inl rfl
  · exact .inr (.inl rfl)
  · exact .inr (.inr ⟨_, by omega, rfl⟩)

/-- A power of two other than `16` that is at least `16` is at least `32`. -/
theorem two_pow_ge_32 {h : Nat} (h16 : 16 ≤ (2 : Int) ^ h) (hne : (2 : Int) ^ h ≠ 16) :
    32 ≤ (2 : Int) ^ h := by
  rcases Nat.lt_or_ge h 5 with hlt | hge
  · interval_cases h <;> simp_all
  · calc (32 : Int) = 2 ^ 5 := by norm_num
      _ ≤ 2 ^ h := pow_le_pow_right₀ (by norm_num) hge

/-- Unless the CIDR has exactly `16` addresses, the static band lies below the top of the
bitmap, or the bitmap is empty. -/
theorem newInMemory_offset_lt (cidr : IPNet) (hsize : rangeSize cidr ≠ 16) :
    ((newInMemory cidr).alloc.offset : Int) < (newInMemory cidr).max ∨
      (newInMemory cidr).max = 0 := by
  have hsize' : rangeSize cidr < 16 ∨ 32 ≤ rangeSize cidr := by
    rcases rangeSize_cases cidr with h | h | ⟨k, -, h⟩
    · omega
    · unfold maxInt64 at h
      omega
    · rw [h] at hsize ⊢
      by_cases h16 : 16 ≤ (2 : Int) ^ k
      · exact .inr (two_pow_ge_32 h16 hsize)
      · exact .inl (by omega)
  simp only [newInMemory, newAllocationMapWithOffset, calculateRangeOffset]
  split_ifs <;> omega

/-! ## Runs of the range -/

namespace Range

variable {r r' : Range}

/-- The calls a run makes on the range. -/
inductive Event
  | allocate (ip : Nat)
  | allocateNext (draw₁ draw₂ : Nat)
  | release (ip : Nat)

/-- The state after a call that returns, with or without an error; `none` when it panics. -/
def step (r : Range) : Event → Option Range
  | .allocate ip =>
      match r.allocate ip with
      | .ok r' => some r'
      | .error _ => some r
  | .allocateNext draw₁ draw₂ =>
      match r.allocateNext draw₁ draw₂ with
      | .ok (_, r') => some r'
      | .error (.panic _) => none
      | .error _ => some r
  | .release ip =>
      match r.release ip with
      | .ok r' => some r'
      | .error _ => none
attribute [grind] step

/-- Runs start from `NewInMemory(cidr)`. -/
def Init (cidr : IPNet) (r : Range) : Prop :=
  r = newInMemory cidr
attribute [grind] Init

def Step (r : Range) (ev : Event) (r' : Range) : Prop :=
  r.step ev = some r'
attribute [grind] Step

/-- A call on the range is a call on its bitmap, or leaves the bitmap alone, and keeps the
network, the base and the size. -/
theorem step_alloc {ev : Event} (h : r.step ev = some r') :
    r'.net = r.net ∧ r'.base = r.base ∧ r'.max = r.max ∧
      (r'.alloc = r.alloc ∨ ∃ ev', r.alloc.step ev' = some r'.alloc) := by
  cases ev with
  | allocate ip =>
    cases hcontains : r.contains ip with
    | none =>
      simp only [step, allocate, hcontains, Option.some.injEq] at h
      exact h ▸ ⟨rfl, rfl, rfl, .inl rfl⟩
    | some offset =>
      cases halloc : r.alloc.allocate offset with
      | error e =>
        simp only [step, allocate, hcontains, halloc, Option.some.injEq] at h
        exact h ▸ ⟨rfl, rfl, rfl, .inl rfl⟩
      | ok res =>
        obtain ⟨_ | _, alloc⟩ := res
        · simp only [step, allocate, hcontains, halloc, Option.some.injEq] at h
          exact h ▸ ⟨rfl, rfl, rfl, .inl rfl⟩
        · simp only [step, allocate, hcontains, halloc, Option.some.injEq] at h
          subst h
          exact ⟨rfl, rfl, rfl, .inr ⟨.allocate offset, by simp [AllocationBitmap.step, halloc]⟩⟩
  | allocateNext draw₁ draw₂ =>
    cases hnext : r.alloc.allocateNext draw₁ draw₂ with
    | error e => simp [step, allocateNext, hnext] at h
    | ok res =>
      obtain _ | ⟨offset, alloc⟩ := res
      · simp only [step, allocateNext, hnext, Option.some.injEq] at h
        exact h ▸ ⟨rfl, rfl, rfl, .inl rfl⟩
      · simp only [step, allocateNext, hnext, Option.some.injEq] at h
        subst h
        exact ⟨rfl, rfl, rfl, .inr ⟨.allocateNext draw₁ draw₂, by simp [AllocationBitmap.step, hnext]⟩⟩
  | release ip =>
    cases hcontains : r.contains ip with
    | none =>
      simp only [step, release, hcontains, Option.some.injEq] at h
      exact h ▸ ⟨rfl, rfl, rfl, .inl rfl⟩
    | some offset =>
      cases hrel : r.alloc.release offset with
      | error e => simp [step, release, hcontains, hrel] at h
      | ok alloc =>
        simp only [step, release, hcontains, hrel, Option.some.injEq] at h
        subst h
        exact ⟨rfl, rfl, rfl, .inr ⟨.release offset, by simp [AllocationBitmap.step, hrel, Except.toOption]⟩⟩

/-- The bitmap of a reachable range is a reachable bitmap: the range refines its bitmap. -/
theorem reachable_alloc {cidr : IPNet} (hr : Transition.Reachable (Init cidr) Step r) :
    Transition.Reachable (AllocationBitmap.Init (newInMemory cidr).max cidr.text
        (calculateRangeOffset cidr).toNat) AllocationBitmap.Step r.alloc ∧
      r.net = cidr ∧ r.base = (newInMemory cidr).base ∧ r.max = (newInMemory cidr).max := by
  induction hr with
  | init h =>
    subst h
    exact ⟨.init rfl, rfl, rfl, rfl⟩
  | step _ hstep ih =>
    obtain ⟨halloc, hnet, hbase, hmax⟩ := ih
    obtain ⟨hnet', hbase', hmax', hsame | ⟨ev', hev'⟩⟩ := step_alloc hstep
    · exact ⟨hsame ▸ halloc, hnet'.trans hnet, hbase'.trans hbase, hmax'.trans hmax⟩
    · exact ⟨halloc.step hev', hnet'.trans hnet, hbase'.trans hbase, hmax'.trans hmax⟩

/-- The usable offsets of `NewInMemory(cidr)` are addresses of the CIDR other than its
network address and, for IPv4, its broadcast address. -/
theorem newInMemory_address (cidr : IPNet) {p : Nat} (hp : (p : Int) < (newInMemory cidr).max) :
    cidr.contains ((newInMemory cidr).base + p) = true ∧ (newInMemory cidr).base + p ≠ cidr.ip ∧
      (cidr.isIPv6 = false →
        (newInMemory cidr).base + p + 1 ≠ cidr.ip + 2 ^ (cidr.bits - cidr.ones)) := by
  -- `RangeSize` never exceeds the number of addresses the mask leaves
  have hsize : rangeSize cidr ≤ ((2 ^ (cidr.bits - cidr.ones) : Nat) : Int) := by
    push_cast
    unfold rangeSize
    dsimp only
    split_ifs with h₀ h₁
    · positivity
    · calc maxInt64 ≤ (2 : Int) ^ 63 := by unfold maxInt64; omega
        _ ≤ 2 ^ (cidr.bits - cidr.ones) := pow_le_pow_right₀ (by norm_num) h₁
    · exact le_rfl
  have hsize0 : 0 ≤ rangeSize cidr := by
    rcases rangeSize_cases cidr with h | h | ⟨k, -, h⟩ <;> rw [h]
    · unfold maxInt64
      omega
    · positivity
  rw [show (newInMemory cidr).base = cidr.ip + 1 from rfl]
  simp only [IPNet.contains, decide_eq_true_eq, IPNet.isIPv6]
  simp only [newInMemory, IPNet.isIPv6] at hp
  generalize 2 ^ (cidr.bits - cidr.ones) = n at hsize ⊢
  by_cases hv6 : cidr.bits = 128
  · -- IPv6: the offsets stop one short of `min(RangeSize, 65536)`
    simp only [hv6, beq_self_eq_true, if_true] at hp ⊢
    refine ⟨by split_ifs at hp <;> omega, by omega, by simp⟩
  · -- IPv4: two short of `RangeSize`
    have hne : (cidr.bits == 128) = false := by simpa using hv6
    simp only [hne, Bool.false_eq_true, if_false] at hp ⊢
    refine ⟨by split_ifs at hp <;> omega, by omega, fun _ => ?_⟩
    split_ifs at hp <;> omega

/-- From a reachable range of a CIDR other than those of 16 addresses, `AllocateNext` never
panics: it returns `ErrFull` exactly when `Free()` is `0`, and otherwise an address of the
CIDR, not its network or broadcast address, whose offset was free. -/
theorem allocateNext_sound {cidr : IPNet} (hsize : rangeSize cidr ≠ 16)
    (hr : Transition.Reachable (Init cidr) Step r) (draw₁ draw₂ : Nat) :
    if 0 < r.free then
      ∃ p : Nat, (p : Int) < r.max ∧ r.alloc.allocated.testBit p = false ∧
        (∃ r', r.allocateNext draw₁ draw₂ = .ok (r.base + p, r')) ∧
        cidr.contains (r.base + p) = true ∧ r.base + p ≠ cidr.ip ∧
        (cidr.isIPv6 = false → r.base + p + 1 ≠ cidr.ip + 2 ^ (cidr.bits - cidr.ones))
    else r.allocateNext draw₁ draw₂ = .error .full := by
  obtain ⟨halloc, -, hbase, hmax⟩ := reachable_alloc hr
  obtain ⟨hvalid, hamax, haoff⟩ :=
    (AllocationBitmap.valid_inductive _ _ _).reachable halloc
  have hmax0 : 0 ≤ (newInMemory cidr).max := by
    simp only [newInMemory]
    split_ifs <;> omega
  have hsound := hvalid.sound (hamax ▸ hmax0)
  unfold free
  split_ifs with hfree
  · -- a free offset exists, and the static band fits below `max`
    have hoff : (r.alloc.offset : Int) < r.alloc.max := by
      rw [haoff, hamax]
      rcases newInMemory_offset_lt cidr hsize with h | h
      · exact h
      · have := hsound.free_nonneg
        unfold AllocationBitmap.free at hfree this
        have hcount : 0 ≤ r.alloc.count := by rw [hsound.count_eq]; omega
        omega
    have hspec := hsound.allocateNext hoff draw₁ draw₂
    unfold AllocationBitmap.AllocateNextSpec at hspec
    rw [if_pos hfree] at hspec
    obtain ⟨p, hp, hclear, hnext⟩ := hspec
    have hpmax : (p : Int) < (newInMemory cidr).max := hamax ▸ hp
    obtain ⟨hcontains, hnet, hbroadcast⟩ := newInMemory_address cidr hpmax
    refine ⟨p, hmax ▸ hpmax, hclear, ⟨_, by unfold allocateNext; rw [hnext]⟩, ?_⟩
    rw [hbase]
    exact ⟨hcontains, hnet, hbroadcast⟩
  · have hnone := AllocationBitmap.allocateNext_of_free_nonpos (r := r.alloc) (by omega) draw₁ draw₂
    simp [allocateNext, hnone]

end Range

/-- `10.0.0.0/28`. -/
def cidr28 : IPNet := ⟨167772160, 28, 32, "10.0.0.0/28"⟩
attribute [grind] cidr28

/-- `fd00::/124`. -/
def cidr124 : IPNet := ⟨0xfd00 * 2 ^ 112, 124, 128, "fd00::/124"⟩
attribute [grind] cidr124

/-- A `/28` has `16` addresses, `14` of them usable, but `calculateRangeOffset` asks for a
static band of `16`: `AllocateNext` computes `rand.Intn(14 - 16)` and panics on the first
call, with all addresses free.  The IPv6 `/124` has `15` usable addresses and the same
band. -/
theorem allocateNext_panics_small_cidr :
    (newInMemory cidr28).max = 14 ∧ calculateRangeOffset cidr28 = 16 ∧
      (newInMemory cidr28).free = 14 ∧
      (∀ draw₁ draw₂ : Nat, (newInMemory cidr28).allocateNext draw₁ draw₂ =
        .error (.panic "invalid argument to Intn")) ∧
      (newInMemory cidr124).max = 15 ∧ calculateRangeOffset cidr124 = 16 ∧
      (newInMemory cidr124).free = 15 ∧
      ∀ draw₁ draw₂ : Nat, (newInMemory cidr124).allocateNext draw₁ draw₂ =
        .error (.panic "invalid argument to Intn") :=
  ⟨rfl, rfl, rfl, fun _ _ => rfl, rfl, rfl, rfl, fun _ _ => rfl⟩

end IPAllocator
end Kubernetes
