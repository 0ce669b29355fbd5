import Mathlib

/-!
# `math/big.Int` as a bitmap

The allocators keep a set of offsets in a non-negative `big.Int`, which the model keeps as a
`Nat`.  The methods they call: `Bit` (which panics on a negative index), `SetBit`, `Bytes`
and `SetBytes` (the magnitude as big-endian bytes), `Bits` (the magnitude as little-endian
machine words, 64 bits wide on the platforms modelled) and `bits.OnesCount64`.

`testBit_setBit` says what `SetBit` does to each bit, `setBytes_bytes` that the byte codec
round-trips, and `testBit_ofDigits_cons` how the bits of a number split over its words.
-/

namespace Kubernetes
namespace Go

/-- The bits of a `big.Word`. -/
def wordBits : Nat := 64
attribute [grind] wordBits

/-- `x.Bit(i)`. -/
def bigBit (x : Nat) (i : Int) : Except String Bool :=
  if i < 0 then .error "negative bit index" else .ok (x.testBit i.toNat)
attribute [grind] bigBit

/-- `z.SetBit(x, i, b)`: `x | 1<<i` for `b = 1` and `x &^ 1<<i` for `b = 0`. -/
def setBit (x i : Nat) (b : Bool) : Nat :=
  if b then x ||| 2 ^ i else x &&& (x ^^^ 2 ^ i)
attribute [grind] setBit

/-- `x.Bits()`: the little-endian words of the magnitude, without leading zero words. -/
def bigWords (x : Nat) : List Nat :=
  Nat.digits (2 ^ wordBits) x
attribute [grind] bigWords

/-- `x.Bytes()`: the big-endian bytes of the magnitude, without leading zero bytes. -/
def bigBytes (x : Nat) : List UInt8 :=
  ((Nat.digits 256 x).map Nat.toUInt8).reverse
attribute [grind] bigBytes

/-- `z.SetBytes(buf)`: `buf` read as a big-endian unsigned number. -/
def setBytes (buf : List UInt8) : Nat :=
  Nat.ofDigits 256 (buf.reverse.map UInt8.toNat)
attribute [grind] setBytes

/-- `bits.OnesCount64`: the number of set bits of a word. -/
def onesCount64 (w : Nat) : Nat :=
  ((List.range wordBits).filter w.testBit).length
attribute [grind] onesCount64

/-- `bits.Len64`: the number of bits needed to write `x`, `0` for `0`. -/
def len64 (x : BitVec 64) : Nat :=
  if x = 0 then 0 else x.toNat.log2 + 1
attribute [grind] len64

/-- `bits.LeadingZeros64`. -/
def leadingZeros64 (x : BitVec 64) : Nat :=
  64 - len64 x
attribute [grind] leadingZeros64

theorem len64_le (x : BitVec 64) : len64 x ≤ 64 := by
  unfold len64
  split_ifs with hx
  · omega
  · have hlog : x.toNat.log2 < 64 := (Nat.log2_lt (by simpa [BitVec.toNat_eq] using hx)).mpr x.isLt
    omega

theorem toNat_lt_two_pow_len64 (x : BitVec 64) : x.toNat < 2 ^ len64 x := by
  unfold len64
  split_ifs with hx
  · simp [hx]
  · exact Nat.lt_log2_self

@[simp] theorem testBit_setBit (x i j : Nat) (b : Bool) :
    (setBit x i b).testBit j = if j = i then b else x.testBit j := by
  unfold setBit
  by_cases hji : j = i
  · subst hji
    cases b <;> simp
  · cases b <;> simp [Ne.symm hji, hji]

theorem setBytes_bigBytes (x : Nat) : setBytes (bigBytes x) = x := by
  unfold setBytes bigBytes
  rw [List.reverse_reverse, List.map_map]
  have hround : ∀ d ∈ Nat.digits 256 x, (UInt8.toNat ∘ Nat.toUInt8) d = d := by
    intro d hd
    have hlt := Nat.digits_lt_base (by norm_num) hd
    simp [Nat.toUInt8, Nat.mod_eq_of_lt hlt]
  rw [List.map_congr_left hround, List.map_id', Nat.ofDigits_digits]

/-- The bits of `d + 2^w * y` for a digit `d < 2^w`: those of `d` below `w`, those of `y`
above. -/
theorem testBit_ofDigits_cons {w d : Nat} (hd : d < 2 ^ w) (ds : List Nat) (j : Nat) :
    (Nat.ofDigits (2 ^ w) (d :: ds)).testBit j =
      if j < w then d.testBit j else (Nat.ofDigits (2 ^ w) ds).testBit (j - w) := by
  rw [Nat.ofDigits_cons, add_comm, Nat.testBit_two_pow_mul_add _ hd]

end Go
end Kubernetes
