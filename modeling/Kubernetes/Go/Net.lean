import Mathlib
import Kubernetes.Bits.Prefix

/-!
# `net.IP`, `net.IPMask` and `net.IPNet`

The byte slices of the `net` package, as numbers: an `IP` or an `IPMask` is nil (or empty),
4 bytes or 16 bytes, the bytes read big-endian into a `BitVec`.  Slices of other lengths are
not built by the callers modelled.  The functions the allocators call: `To4`, `To16`,
`IP.Mask`, `CIDRMask`, `IPMask.Size` and `IPNet.Contains`, and the `binary.BigEndian` and
`big.Int.SetBytes` reads of an address.

`contains_v4` and `contains_v6` say what `Contains` decides for a network of either family:
the first `ones` bits of the address, once `To4` has made an IPv4 address of 16 bytes 4 bytes
long.
-/

namespace Kubernetes
namespace Go

open Bits

/-- A `net.IP`. -/
inductive IP
  | nil
  | v4 (addr : BitVec 32)
  | v6 (addr : BitVec 128)
  deriving DecidableEq, Repr

/-- A `net.IPMask`. -/
inductive IPMask
  | nil
  | v4 (mask : BitVec 32)
  | v6 (mask : BitVec 128)
  deriving DecidableEq, Repr

/-- A `net.IPNet`. -/
structure IPNet where
  ip : IP
  mask : IPMask
  deriving DecidableEq, Repr

/-- `v4InV6Prefix`: the first 12 bytes of an IPv4 address written in 16 bytes, ten zeros and
two `0xff`. -/
def v4InV6Prefix : BitVec 96 := 0xffff
attribute [grind] v4InV6Prefix

/-- `ip.To4()`. -/
def IP.to4 : IP → IP
  | .nil => .nil
  | .v4 a => .v4 a
  | .v6 a => if a.extractLsb' 32 96 = v4InV6Prefix then .v4 (a.extractLsb' 0 32) else .nil
attribute [grind] IP.to4

/-- `ip.To16()`. -/
def IP.to16 : IP → IP
  | .nil => .nil
  | .v4 a => .v6 (v4InV6Prefix ++ a)
  | .v6 a => .v6 a
attribute [grind] IP.to16

/-- `binary.BigEndian.Uint32(ip)`: the first 4 bytes (it panics on a nil slice, which the
callers check for or never pass). -/
def IP.first4 : IP → BitVec 32
  | .nil => 0
  | .v4 a => a
  | .v6 a => a.extractLsb' 96 32
attribute [grind] IP.first4

/-- `binary.BigEndian.Uint32(mask)`. -/
def IPMask.first4 : IPMask → BitVec 32
  | .nil => 0
  | .v4 m => m
  | .v6 m => m.extractLsb' 96 32
attribute [grind] IPMask.first4

/-- `new(big.Int).SetBytes(ip)`. -/
def IP.setBytes : IP → Nat
  | .nil => 0
  | .v4 a => a.toNat
  | .v6 a => a.toNat
attribute [grind] IP.setBytes

/-- `net.CIDRMask(ones, bits)`: `ones` one bits then zeros, nil unless `bits` is 32 or 128
and `0 ≤ ones ≤ bits`. -/
def cidrMask (ones bits : Int) : IPMask :=
  if bits ≠ 32 ∧ bits ≠ 128 then .nil
  else if ones < 0 ∨ ones > bits then .nil
  else if bits = 32 then .v4 (prefixMask 32 ones.toNat)
  else .v6 (prefixMask 128 ones.toNat)
attribute [grind] cidrMask

/-- The leading one bits of `m` among its bits `k - 1, k - 2, …, 0`. -/
def leadingOnesBelow {w : Nat} (m : BitVec w) : Nat → Nat
  | 0 => 0
  | k + 1 => if m.getLsbD k then leadingOnesBelow m k + 1 else 0
attribute [grind] leadingOnesBelow

/-- `simpleMaskLength`: the number of leading ones when the other bits are zeros, `-1`
otherwise.  The source counts them byte by byte. -/
def simpleMaskLength {w : Nat} (m : BitVec w) : Int :=
  if m = prefixMask w (leadingOnesBelow m w) then leadingOnesBelow m w else -1
attribute [grind] simpleMaskLength

/-- `m.Size()`: the number of leading ones and the length in bits, `(0, 0)` for a mask that
is not ones followed by zeros. -/
def IPMask.size : IPMask → Int × Int
  | .nil => (0, 0)
  | .v4 m => if simpleMaskLength m = -1 then (0, 0) else (simpleMaskLength m, 32)
  | .v6 m => if simpleMaskLength m = -1 then (0, 0) else (simpleMaskLength m, 128)
attribute [grind] IPMask.size

/-- `ip.Mask(mask)`: a 16-byte mask whose first 12 bytes are ones applies to a 4-byte
address by its last 4, a 4-byte mask to an IPv4 address in 16 bytes by its last 4; nil when
the lengths still differ. -/
def IP.mask (ip : IP) (mask : IPMask) : IP :=
  let mask := match ip, mask with
    | .v4 _, .v6 m =>
        if m.extractLsb' 32 96 = BitVec.allOnes 96 then IPMask.v4 (m.extractLsb' 0 32)
        else IPMask.v6 m
    | _, mask => mask
  let ip := match ip, mask with
    | .v6 a, .v4 _ =>
        if a.extractLsb' 32 96 = v4InV6Prefix then IP.v4 (a.extractLsb' 0 32) else IP.v6 a
    | ip, _ => ip
  match ip, mask with
  | .v4 a, .v4 m => .v4 (a &&& m)
  | .v6 a, .v6 m => .v6 (a &&& m)
  | _, _ => .nil

/-- `networkNumberAndMask(n)`: the network address (4 bytes for IPv4) and the mask of the
same length, both nil when they do not fit. -/
def networkNumberAndMask (n : IPNet) : IP × IPMask :=
  let ip := match n.ip.to4, n.ip with
    | .nil, .v6 a => IP.v6 a
    | .nil, _ => IP.nil
    | ip4, _ => ip4
  match ip, n.mask with
  | .v4 a, .v4 m => (.v4 a, .v4 m)
  | .v4 a, .v6 m => (.v4 a, .v4 (m.extractLsb' 0 32))
  | .v6 a, .v6 m => (.v6 a, .v6 m)
  | _, _ => (.nil, .nil)
attribute [grind] networkNumberAndMask

/-- `n.Contains(ip)`: the address, 4 bytes long if it is IPv4, has the length of the network
address and agrees with it under the mask. -/
def IPNet.contains (n : IPNet) (ip : IP) : Bool :=
  let ip := match ip.to4 with
    | .nil => ip
    | ip4 => ip4
  match networkNumberAndMask n, ip with
  | (.v4 a, .v4 m), .v4 x => a &&& m == x &&& m
  | (.v6 a, .v6 m), .v6 x => a &&& m == x &&& m
  | (.nil, _), .nil => true
  | _, _ => false
attribute [grind] IPNet.contains

/-! ## What the functions compute on well-formed values -/

/-- An IPv6 address that is not an IPv4 address written in 16 bytes. -/
def NotV4InV6 (a : BitVec 128) : Prop :=
  a.extractLsb' 32 96 ≠ v4InV6Prefix
attribute [grind] NotV4InV6

@[simp] theorem to4_nil : IP.nil.to4 = .nil := rfl

@[simp] theorem to4_v4 (a : BitVec 32) : (IP.v4 a).to4 = .v4 a := rfl

theorem to4_v6 {a : BitVec 128} (ha : NotV4InV6 a) : (IP.v6 a).to4 = .nil := by
  simp only [IP.to4]
  rw [if_neg ha]

theorem to4_v6_of_not {a : BitVec 128} (ha : ¬NotV4InV6 a) :
    (IP.v6 a).to4 = .v4 (a.extractLsb' 0 32) := by
  simp only [IP.to4]
  rw [if_pos (not_not.mp ha)]

theorem networkNumberAndMask_v4 (a m : BitVec 32) :
    networkNumberAndMask ⟨.v4 a, .v4 m⟩ = (.v4 a, .v4 m) := rfl

theorem networkNumberAndMask_v6 {a : BitVec 128} (ha : NotV4InV6 a) (m : BitVec 128) :
    networkNumberAndMask ⟨.v6 a, .v6 m⟩ = (.v6 a, .v6 m) := by
  simp [networkNumberAndMask, to4_v6 ha]

theorem leadingOnesBelow_prefixMask {w k : Nat} {j : Nat} (hj : j ≤ w) :
    leadingOnesBelow (prefixMask w k) j = j - (w - k) := by
  induction j with
  | zero => simp [leadingOnesBelow]
  | succ j ih =>
      rw [leadingOnesBelow, getLsbD_prefixMask, ih (by omega)]
      by_cases hjk : w - k ≤ j
      · simp [show j < w by omega, hjk]
        omega
      · simp [hjk]
        omega

theorem simpleMaskLength_prefixMask {w k : Nat} (hk : k ≤ w) :
    simpleMaskLength (prefixMask w k) = k := by
  have hones : leadingOnesBelow (prefixMask w k) w = k := by
    rw [leadingOnesBelow_prefixMask le_rfl]
    omega
  simp [simpleMaskLength, hones]

theorem size_v4 {k : Nat} (hk : k ≤ 32) : (IPMask.v4 (prefixMask 32 k)).size = ((k : Int), 32) := by
  simp [IPMask.size, simpleMaskLength_prefixMask hk]

theorem size_v6 {k : Nat} (hk : k ≤ 128) : (IPMask.v6 (prefixMask 128 k)).size = ((k : Int), 128) := by
  simp [IPMask.size, simpleMaskLength_prefixMask hk]

theorem cidrMask_v4 {k : Nat} (hk : k ≤ 32) : cidrMask k 32 = .v4 (prefixMask 32 k) := by
  simp [cidrMask]
  omega

theorem cidrMask_v6 {k : Nat} (hk : k ≤ 128) : cidrMask k 128 = .v6 (prefixMask 128 k) := by
  simp [cidrMask]
  omega

/-- `Contains` for an IPv4 network: the address is IPv4 and agrees on the first `k` bits. -/
theorem contains_v4 {a : BitVec 32} {k : Nat} {ip : IP} :
    (IPNet.mk (.v4 a) (.v4 (prefixMask 32 k))).contains ip = true ↔
      ∃ x, ip.to4 = .v4 x ∧ top x k = top a k := by
  rcases hto4 : ip.to4 with _ | x | x
  · -- an address with no IPv4 form stays as it is, and is not 4 bytes long
    cases ip with
    | nil => simp [IPNet.contains, networkNumberAndMask_v4]
    | v4 y => simp at hto4
    | v6 y => simp [IPNet.contains, networkNumberAndMask_v4, hto4]
  · have hcon : (IPNet.mk (.v4 a) (.v4 (prefixMask 32 k))).contains ip =
        (a &&& prefixMask 32 k == x &&& prefixMask 32 k) := by
      simp only [IPNet.contains, networkNumberAndMask_v4, hto4]
    rw [hcon, beq_iff_eq, and_prefixMask_eq_iff]
    constructor
    · intro h
      exact ⟨x, rfl, h.symm⟩
    · rintro ⟨x', hx', h⟩
      cases hx'
      exact h.symm
  · cases ip with
    | nil => simp at hto4
    | v4 y => simp at hto4
    | v6 y =>
        simp only [IP.to4] at hto4
        split_ifs at hto4

/-- `Contains` for an IPv6 network: the address is 16 bytes long, not an IPv4 address, and
agrees on the first `k` bits. -/
theorem contains_v6 {a : BitVec 128} (ha : NotV4InV6 a) {k : Nat} {ip : IP} :
    (IPNet.mk (.v6 a) (.v6 (prefixMask 128 k))).contains ip = true ↔
      ∃ x, ip = .v6 x ∧ NotV4InV6 x ∧ top x k = top a k := by
  cases ip with
  | nil => simp [IPNet.contains, networkNumberAndMask_v6 ha]
  | v4 y => simp [IPNet.contains, networkNumberAndMask_v6 ha]
  | v6 y =>
      by_cases hy : NotV4InV6 y
      · have hcon : (IPNet.mk (.v6 a) (.v6 (prefixMask 128 k))).contains (.v6 y) =
            (a &&& prefixMask 128 k == y &&& prefixMask 128 k) := by
          simp only [IPNet.contains, networkNumberAndMask_v6 ha, to4_v6 hy]
        rw [hcon, beq_iff_eq, and_prefixMask_eq_iff]
        constructor
        · intro h
          exact ⟨y, rfl, hy, h.symm⟩
        · rintro ⟨y', hy', -, h⟩
          cases hy'
          exact h.symm
      · simp [IPNet.contains, networkNumberAndMask_v6 ha, to4_v6_of_not hy, hy]

/-! ## The two families -/

/-- The two address families. -/
inductive Family
  | v4
  | v6
  deriving DecidableEq, Repr

/-- The width in bits of an address of the family. -/
@[reducible] def Family.width : Family → Nat
  | .v4 => 32
  | .v6 => 128
attribute [grind] Family.width

/-- An address of the family, as an `IP` of its length. -/
def Family.ip : (f : Family) → BitVec f.width → IP
  | .v4, a => .v4 a
  | .v6, a => .v6 a
attribute [grind] Family.ip

/-- A mask of the family, as an `IPMask` of its length. -/
def Family.mask : (f : Family) → BitVec f.width → IPMask
  | .v4, m => .v4 m
  | .v6, m => .v6 m
attribute [grind] Family.mask

/-- An address that `To4` leaves as it is: any IPv4 address, and an IPv6 address that is not
IPv4. -/
def Family.Plain : (f : Family) → BitVec f.width → Prop
  | .v4, _ => True
  | .v6, a => NotV4InV6 a
attribute [grind] Family.Plain

/-- `ip` is the address `x` of the family, as `Contains` reads it: an IPv4 address of either
length, or an IPv6 address of 16 bytes that is not IPv4. -/
def Family.Reads : (f : Family) → IP → BitVec f.width → Prop
  | .v4, ip, x => ip.to4 = .v4 x
  | .v6, ip, x => ip = .v6 x ∧ NotV4InV6 x
attribute [grind] Family.Reads

theorem Family.reads_ip {f : Family} {a : BitVec f.width} (ha : f.Plain a) : f.Reads (f.ip a) a := by
  cases f with
  | v4 => rfl
  | v6 => exact ⟨rfl, ha⟩

theorem Family.reads_unique {f : Family} {ip : IP} {x y : BitVec f.width} (hx : f.Reads ip x)
    (hy : f.Reads ip y) : x = y := by
  cases f with
  | v4 => exact IP.v4.inj (hx.symm.trans hy)
  | v6 => exact IP.v6.inj (hx.1.symm.trans hy.1)

/-- `ip.Mask(mask)` of an address and a mask of one family. -/
theorem Family.mask_ip (f : Family) (a m : BitVec f.width) :
    (f.ip a).mask (f.mask m) = f.ip (a &&& m) := by
  cases f <;> rfl

/-- Masking an IPv6 address that is not IPv4 gives one that is not either. -/
theorem notV4InV6_and_prefixMask {a : BitVec 128} (ha : NotV4InV6 a) (k : Nat) :
    NotV4InV6 (a &&& prefixMask 128 k) := by
  intro h
  by_cases hk : 96 ≤ k
  · -- the mask keeps the bits `To4` reads
    apply ha
    rw [← h]
    apply BitVec.eq_of_getLsbD_eq
    intro j hj
    simp only [BitVec.getLsbD_extractLsb', BitVec.getLsbD_and, getLsbD_prefixMask]
    simp [hj]
    omega
  · -- the mask clears bit 32, where `v4InV6Prefix` has a one
    have h0 := congrArg (fun v : BitVec 96 => v.getLsbD 0) h
    have hv : v4InV6Prefix.getLsbD 0 = true := by decide
    simp only [BitVec.getLsbD_extractLsb', BitVec.getLsbD_and, getLsbD_prefixMask, hv] at h0
    simp [show ¬(128 - k ≤ 32) by omega] at h0

theorem Family.plain_and_prefixMask {f : Family} {a : BitVec f.width} (ha : f.Plain a) (k : Nat) :
    f.Plain (a &&& prefixMask f.width k) := by
  cases f with
  | v4 => trivial
  | v6 => exact notV4InV6_and_prefixMask ha k

theorem Family.size_mask {f : Family} {k : Nat} (hk : k ≤ f.width) :
    (f.mask (prefixMask f.width k)).size = ((k : Int), (f.width : Int)) := by
  cases f with
  | v4 => exact size_v4 hk
  | v6 => exact size_v6 hk

/-- `Contains` for a network of either family: the address is read in the family and agrees
on the first `k` bits. -/
theorem Family.contains {f : Family} {a : BitVec f.width} (ha : f.Plain a) {k : Nat} {ip : IP} :
    (IPNet.mk (f.ip a) (f.mask (prefixMask f.width k))).contains ip = true ↔
      ∃ x, f.Reads ip x ∧ top x k = top a k := by
  cases f with
  | v4 => exact contains_v4
  | v6 =>
      refine (contains_v6 (k := k) ha).trans ?_
      simp only [Family.Reads, and_assoc]

end Go
end Kubernetes
