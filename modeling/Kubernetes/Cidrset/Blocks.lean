import Mathlib
import Kubernetes.Cidrset.CidrSet

/-!
# The node blocks of a cluster CIDR

For a cluster CIDR in network form whose node mask size `m` is at least its prefix length `p`,
block `i < 2 ^ (m - p)` is the cluster address with `i` written in its bits from `p` to `m`
(`indexToCIDRBlock_eq`: for IPv6 the two halves put together give exactly that), and
`getIndexForIP` reads those bits back (`getIndexForIP_eq`).  So every block is a `/m` network
inside the cluster, every address of block `i` has index `i`, and blocks of different indices
are disjoint (`indexToCIDRBlock_bijection`).

This needs the index to fit: `getIndexForIP` compares it with `uint32(maxCIDRs)`, which is `0`
for 32 index bits, and for IPv6 with the low 64 bits of the shifted `xor`; and an IPv6
cluster must hold no IPv4 address written in 16 bytes, which `To4` would read as IPv4
(`indexToCIDRBlock_bijection_fails`).
-/

namespace Kubernetes
namespace Cidrset

open Go Bits

/-- The most index bits the set handles as intended: 31 for IPv4 (`uint32(maxCIDRs)` must
not wrap to `0`) and `clusterSubnetMaxDiff` for IPv6. -/
def maxIndexBits : Family → Nat
  | .v4 => 31
  | .v6 => 16
attribute [grind] maxIndexBits

/-- The cluster CIDR of address `a` and prefix length `p`, as `ParseCIDR` gives it. -/
def clusterNet (f : Family) (a : BitVec f.width) (p : Nat) : IPNet :=
  ⟨f.ip a, f.mask (prefixMask f.width p)⟩
attribute [grind] clusterNet

/-- A cluster CIDR and a node mask size for which the blocks are as intended: the address in
network form, `p ≤ m ≤ width`, at most `maxIndexBits` index bits, and no address of the
cluster that `To4` reads as IPv4 unless the cluster is IPv4. -/
structure ClusterCIDR (f : Family) (a : BitVec f.width) (p m : Nat) : Prop where
  network : a &&& prefixMask f.width p = a
  le_node : p ≤ m
  node_le : m ≤ f.width
  index_bits : m - p ≤ maxIndexBits f
  plain : ∀ x : BitVec f.width, top x p = top a p → f.Plain x

/-- The set `NewCIDRSet` builds for such a cluster. -/
def initial (f : Family) (a : BitVec f.width) (p m : Nat) : CidrSet where
  clusterCIDR := clusterNet f a p
  clusterMaskSize := p
  nodeMask := f.mask (prefixMask f.width m)
  nodeMaskSize := m
  maxCIDRs := 2 ^ (m - p)
  allocatedCIDRs := 0
  nextCandidate := 0
  used := 0
attribute [grind] initial

/-- The address of block `i`. -/
def blockAddress (f : Family) (a : BitVec f.width) (m i : Nat) : BitVec f.width :=
  a ||| BitVec.ofNat f.width i <<< (f.width - m)
attribute [grind] blockAddress

variable {f : Family} {a : BitVec f.width} {p m : Nat}

theorem oneShiftLeft_of_lt {n : Nat} (hn : n < 63) : oneShiftLeft n = 2 ^ n := by
  have hcount : ((n : Int) % 2 ^ 32).toNat = n := by
    have : n < 2 ^ 32 := lt_trans hn (by norm_num)
    omega
  have hpow : (2 : Int) ^ n ≤ 2 ^ 62 := pow_le_pow_right₀ (by norm_num) (by omega)
  have hpos : (0 : Int) ≤ 2 ^ n := by positivity
  simp only [oneShiftLeft, hcount, show n < 64 by omega, if_true]
  exact wrap64_of_mem (by unfold minInt64; omega) (by unfold maxInt64; omega)

theorem cidrMask_family (hm : m ≤ f.width) :
    cidrMask m f.width = f.mask (prefixMask f.width m) := by
  cases f with
  | v4 => exact cidrMask_v4 hm
  | v6 => exact cidrMask_v6 hm

theorem newCIDRSet_eq (hc : ClusterCIDR f a p m) :
    newCIDRSet (clusterNet f a p) m = .ok (initial f a p m) := by
  have hp : p ≤ f.width := le_trans hc.le_node hc.node_le
  have hbits : m - p < 63 := by
    have := hc.index_bits
    cases f <;> simp only [maxIndexBits] at this <;> omega
  have hshift : oneShiftLeft ((m : Int) - p) = 2 ^ (m - p) := by
    have := hc.le_node
    rw [← oneShiftLeft_of_lt hbits]
    congr 1
    omega
  -- the check on the index bits only applies to IPv6, where the cluster allows at most 16
  have hcheck : ¬((clusterNet f a p).ip.to4 = .nil ∧ (m : Int) - p > clusterSubnetMaxDiff) := by
    have := hc.index_bits
    cases f with
    | v4 =>
        rintro ⟨h, -⟩
        simp [clusterNet, Family.ip, IP.to4] at h
    | v6 =>
        simp only [maxIndexBits] at this
        unfold clusterSubnetMaxDiff
        omega
  simp only [newCIDRSet, clusterNet, Family.size_mask hp] at hcheck ⊢
  rw [if_neg hcheck, cidrMask_family hc.node_le, hshift]
  rfl

/-! ## `indexToCIDRBlock` -/

/-- A shift by at least the length of `x` leaves nothing. -/
theorem ushiftRight_eq_zero_of_len64_le {x : BitVec 64} {n : Nat} (h : len64 x ≤ n) : x >>> n = 0 := by
  apply BitVec.eq_of_toNat_eq
  rw [BitVec.toNat_ushiftRight, Nat.shiftRight_eq_div_pow]
  exact Nat.div_eq_of_lt (lt_of_lt_of_le (toNat_lt_two_pow_len64 x) (Nat.pow_le_pow_right two_pos h))

/-- A node mask up to bit 64: the index goes into the left half only. -/
theorem halves_left (a : BitVec 128) {m : Nat} (hm : m ≤ 64) (i : Nat) :
    (a.extractLsb' 64 64 ||| BitVec.ofNat 64 i <<< (64 - m)) ++ a.extractLsb' 0 64 =
      a ||| BitVec.ofNat 128 i <<< (128 - m) := by
  apply BitVec.eq_of_getLsbD_eq
  intro j hj
  simp only [BitVec.getLsbD_append, BitVec.getLsbD_or, BitVec.getLsbD_extractLsb',
    BitVec.getLsbD_shiftLeft, BitVec.getLsbD_ofNat]
  by_cases hj64 : j < 64
  · simp [hj64, show j < 128 - m by omega]
  · simp only [hj64, if_false]
    have hidx : j - 64 - (64 - m) = j - (128 - m) := by omega
    by_cases hlow : j < 128 - m
    · simp [hlow, show j - 64 < 64 - m by omega, show 64 + (j - 64) = j by omega,
        show j - 64 < 64 by omega]
    · simp [hlow, show ¬(j - 64 < 64 - m) by omega, show 64 + (j - 64) = j by omega, hidx, hj,
        show j - 64 < 64 by omega, show j - (128 - m) < 64 by omega, show j - (128 - m) < 128 by omega]

/-- A node mask past bit 64 on a cluster prefix before it: the index straddles the halves, its
high bits shifted into the left one. -/
theorem halves_both (a : BitVec 128) {m i : Nat} (hm : 64 < m) (hm' : m ≤ 128) (hi : i < 2 ^ 64) :
    (a.extractLsb' 64 64 ||| BitVec.ofNat 64 i >>> (m - 64)) ++
        (a.extractLsb' 0 64 ||| BitVec.ofNat 64 i <<< (128 - m)) =
      a ||| BitVec.ofNat 128 i <<< (128 - m) := by
  apply BitVec.eq_of_getLsbD_eq
  intro j hj
  simp only [BitVec.getLsbD_append, BitVec.getLsbD_or, BitVec.getLsbD_extractLsb',
    BitVec.getLsbD_shiftLeft, BitVec.getLsbD_ushiftRight, BitVec.getLsbD_ofNat]
  by_cases hj64 : j < 64
  · simp [hj64, show j < 128 by omega, show j - (128 - m) < 64 by omega,
      show j - (128 - m) < 128 by omega]
  · simp only [hj64, if_false]
    have hidx : m - 64 + (j - 64) = j - (128 - m) := by omega
    by_cases hk : j - (128 - m) < 64
    · simp [hidx, hk, show ¬(j < 128 - m) by omega, show j - 64 < 64 by omega,
        show 64 + (j - 64) = j by omega, show j - (128 - m) < 128 by omega, show j < 128 by omega]
    · -- the bits of the index from 64 on are zero
      have h64 : 64 ≤ j - (128 - m) := by omega
      have hzero : i.testBit (j - (128 - m)) = false :=
        Nat.testBit_eq_false_of_lt (lt_of_lt_of_le hi (Nat.pow_le_pow_right two_pos h64))
      simp [hidx, hk, hzero, show j - 64 < 64 by omega, show 64 + (j - 64) = j by omega]

/-- A cluster prefix past bit 64: the index stays in the right half. -/
theorem halves_right (a : BitVec 128) {p m i : Nat} (hp : 64 ≤ p) (hpm : p ≤ m) (hm : m ≤ 128)
    (hi : i < 2 ^ (m - p)) :
    a.extractLsb' 64 64 ++ (a.extractLsb' 0 64 ||| BitVec.ofNat 64 i <<< (128 - m)) =
      a ||| BitVec.ofNat 128 i <<< (128 - m) := by
  apply BitVec.eq_of_getLsbD_eq
  intro j hj
  simp only [BitVec.getLsbD_append, BitVec.getLsbD_or, BitVec.getLsbD_extractLsb',
    BitVec.getLsbD_shiftLeft, BitVec.getLsbD_ofNat]
  by_cases hj64 : j < 64
  · simp [hj64, show j < 128 by omega, show j - (128 - m) < 64 by omega,
      show j - (128 - m) < 128 by omega]
  · -- the index has no bits as high as the left half
    have hzero : i.testBit (j - (128 - m)) = false :=
      Nat.testBit_eq_false_of_lt (lt_of_lt_of_le hi (Nat.pow_le_pow_right two_pos (by omega)))
    simp [hj64, hzero, show j - 64 < 64 by omega, show 64 + (j - 64) = j by omega]

theorem indexToCIDRBlock_v4 {a : BitVec 32} (hc : ClusterCIDR .v4 a p m) (i : Nat) :
    (initial .v4 a p m).indexToCIDRBlock i =
      ⟨.v4 (blockAddress .v4 a m i), .v4 (prefixMask 32 m)⟩ := by
  have hshift : (BitVec.ofInt 32 (32 - (m : Int))).toNat = 32 - m := by
    have := hc.node_le
    simp only [Family.width] at this
    rw [BitVec.toNat_ofInt]
    omega
  simp only [CidrSet.indexToCIDRBlock, initial, clusterNet, Family.ip, Family.mask, to4_v4,
    IP.first4, hshift, BitVec.ofInt_natCast]
  rfl

theorem indexToCIDRBlock_v6 {a : BitVec 128} (hc : ClusterCIDR .v6 a p m) {i : Nat}
    (hi : i < 2 ^ (m - p)) :
    (initial .v6 a p m).indexToCIDRBlock i =
      ⟨.v6 (blockAddress .v6 a m i), .v6 (prefixMask 128 m)⟩ := by
  have hm : m ≤ 128 := hc.node_le
  have hi64 : i < 2 ^ 64 := by
    have := hc.index_bits
    simp only [maxIndexBits] at this
    exact lt_of_lt_of_le hi (Nat.pow_le_pow_right two_pos (by omega))
  have hto4 : (IP.v6 a).to4 = .nil := to4_v6 (hc.plain a rfl)
  have hright : (BitVec.ofInt 64 (128 - (m : Int))).toNat = 128 - m := by
    rw [BitVec.toNat_ofInt]
    omega
  simp only [CidrSet.indexToCIDRBlock, initial, clusterNet, Family.ip, Family.mask, hto4, IP.to16,
    BitVec.ofInt_natCast, hright, blockAddress, Family.width]
  by_cases hleft : (m : Int) ≤ 64
  · -- the node mask ends by bit 64
    have hshift : (BitVec.ofInt 64 (64 - (m : Int))).toNat = 64 - m := by
      rw [BitVec.toNat_ofInt]
      omega
    simp only [hleft, if_true, hshift, halves_left a (show m ≤ 64 by omega) i]
  · have hbtl : (BitVec.ofInt 64 ((m : Int) - 64)).toNat = m - 64 := by
      rw [BitVec.toNat_ofInt]
      omega
    simp only [hleft, if_false, hbtl]
    by_cases hp : (p : Int) < 64
    · simp only [hp, if_true]
      by_cases hlen : 64 - leadingZeros64 (BitVec.ofNat 64 i) > m - 64
      · -- the index reaches into the left half
        simp only [hlen, if_true, halves_both a (show 64 < m by omega) hm hi64]
      · -- the index is too short to reach the left half
        have hlen' : len64 (BitVec.ofNat 64 i) ≤ m - 64 := by
          have := len64_le (BitVec.ofNat 64 i)
          simp only [leadingZeros64] at hlen
          omega
        have hkeep : a.extractLsb' 64 64 ++ (a.extractLsb' 0 64 ||| BitVec.ofNat 64 i <<< (128 - m)) =
            a ||| BitVec.ofNat 128 i <<< (128 - m) := by
          rw [← halves_both a (show 64 < m by omega) hm hi64, ushiftRight_eq_zero_of_len64_le hlen']
          simp
        simp only [hlen, if_false, hkeep]
    · -- the cluster prefix reaches past bit 64
      simp only [hp, if_false, halves_right a (show 64 ≤ p by omega) hc.le_node hm hi]

theorem indexToCIDRBlock_eq (hc : ClusterCIDR f a p m) {i : Nat} (hi : i < 2 ^ (m - p)) :
    (initial f a p m).indexToCIDRBlock i =
      ⟨f.ip (blockAddress f a m i), f.mask (prefixMask f.width m)⟩ := by
  cases f with
  | v4 => exact indexToCIDRBlock_v4 hc i
  | v6 => exact indexToCIDRBlock_v6 hc hi

/-! ## `getIndexForIP` -/

/-- The index `getIndexForIP` reads from the address `x`: the bits of its `xor` with the
cluster address from the node prefix on, cut to 64 bits. -/
def indexOf (f : Family) (a x : BitVec f.width) (m : Nat) : Nat :=
  (a.toNat ^^^ x.toNat) / 2 ^ (f.width - m) % 2 ^ 64
attribute [grind] indexOf

theorem toNat_ofInt_two_pow {w n : Nat} (hn : n < w) : (BitVec.ofInt w ((2 : Int) ^ n)).toNat = 2 ^ n := by
  have hlt : (2 : Int) ^ n < 2 ^ w := pow_lt_pow_right₀ (by norm_num) hn
  have hpos : (0 : Int) ≤ 2 ^ n := by positivity
  rw [BitVec.toNat_ofInt, Int.emod_eq_of_lt hpos (by exact_mod_cast hlt)]
  exact_mod_cast rfl

theorem getIndexForIP_v4 {a x : BitVec 32} (hc : ClusterCIDR .v4 a p m) {ip : IP}
    (hx : ip.to4 = .v4 x) :
    (initial .v4 a p m).getIndexForIP ip =
      if 2 ^ (m - p) ≤ indexOf .v4 a x m then .error (.outOfAllocatorRange ip m)
      else .ok (indexOf .v4 a x m) := by
  have hm : m ≤ 32 := hc.node_le
  have hbits : m - p < 32 := by have := hc.index_bits; simp only [maxIndexBits] at this; omega
  have hshift : (BitVec.ofInt 32 (32 - (m : Int))).toNat = 32 - m := by
    rw [BitVec.toNat_ofInt]
    omega
  have hidx : indexOf .v4 a x m < 2 ^ 32 := by
    unfold indexOf
    exact lt_of_le_of_lt (Nat.mod_le _ _) (lt_of_le_of_lt (Nat.div_le_self _ _)
      (BitVec.toNat_xor a x ▸ (a ^^^ x).isLt))
  -- the shifted `xor` of two 32-bit addresses fits in 32 bits, so the cut to 64 changes nothing
  have hindex : ((IP.v4 a).first4 ^^^ x) >>> (32 - m) = BitVec.ofNat 32 (indexOf .v4 a x m) := by
    apply BitVec.eq_of_toNat_eq
    have hlt : (a.toNat ^^^ x.toNat) / 2 ^ (32 - m) < 2 ^ 32 :=
      lt_of_le_of_lt (Nat.div_le_self _ _) (BitVec.toNat_xor a x ▸ (a ^^^ x).isLt)
    simp only [indexOf, Family.width, IP.first4, BitVec.toNat_ushiftRight, BitVec.toNat_xor,
      Nat.shiftRight_eq_div_pow, BitVec.toNat_ofNat,
      Nat.mod_eq_of_lt (lt_trans hlt (by norm_num : (2 : Nat) ^ 32 < 2 ^ 64)), Nat.mod_eq_of_lt hlt]
  have hpow : 2 ^ (m - p) < 2 ^ 32 := Nat.pow_lt_pow_right (by norm_num) hbits
  have hmax : BitVec.ofInt 32 ((2 : Int) ^ (m - p)) = BitVec.ofNat 32 (2 ^ (m - p)) := by
    apply BitVec.eq_of_toNat_eq
    rw [toNat_ofInt_two_pow hbits, BitVec.toNat_ofNat, Nat.mod_eq_of_lt hpow]
  simp only [CidrSet.getIndexForIP, hx, initial, clusterNet, Family.ip, Family.width, reduceCtorEq,
    if_false, hshift, hindex, hmax, BitVec.le_def, BitVec.toNat_ofNat, Nat.mod_eq_of_lt hidx,
    Nat.mod_eq_of_lt hpow]

theorem getIndexForIP_v6 {a x : BitVec 128} (hc : ClusterCIDR .v6 a p m) (hx : NotV4InV6 x) :
    (initial .v6 a p m).getIndexForIP (.v6 x) =
      if 2 ^ (m - p) ≤ indexOf .v6 a x m then .error (.outOfAllocatorRange (.v6 x) m)
      else .ok (indexOf .v6 a x m) := by
  have hm : m ≤ 128 := hc.node_le
  have hbits : m - p < 64 := by have := hc.index_bits; simp only [maxIndexBits] at this; omega
  have hshift : (BitVec.ofInt 64 (128 - (m : Int))).toNat = 128 - m := by
    rw [BitVec.toNat_ofInt]
    omega
  simp only [CidrSet.getIndexForIP, to4_v6 hx, IP.to16, initial, clusterNet, Family.ip, IP.setBytes,
    hshift, toNat_ofInt_two_pow hbits, Nat.shiftRight_eq_div_pow, indexOf, Family.width]
  rfl

theorem getIndexForIP_eq (hc : ClusterCIDR f a p m) {ip : IP} {x : BitVec f.width}
    (hx : f.Reads ip x) :
    (initial f a p m).getIndexForIP ip =
      if 2 ^ (m - p) ≤ indexOf f a x m then .error (.outOfAllocatorRange ip m)
      else .ok (indexOf f a x m) := by
  cases f with
  | v4 => exact getIndexForIP_v4 hc hx
  | v6 =>
      obtain ⟨rfl, hx⟩ := hx
      exact getIndexForIP_v6 hc hx

/-! ## The blocks -/

theorem top_blockAddress (hc : ClusterCIDR f a p m) {i : Nat} (hi : i < 2 ^ (m - p)) :
    top (blockAddress f a m i) m = top a m + i :=
  top_or_shiftLeft hc.network hc.le_node hc.node_le hi

/-- An address of block `i` is in the cluster and has index `i`. -/
theorem mem_block (hc : ClusterCIDR f a p m) {i : Nat} (hi : i < 2 ^ (m - p)) {x : BitVec f.width}
    (hx : top x m = top (blockAddress f a m i) m) : top x p = top a p ∧ indexOf f a x m = i := by
  obtain ⟨hp, hmod⟩ := top_of_top_eq_add hc.network hc.le_node hc.node_le hi
    (hx.trans (top_blockAddress hc hi))
  have hbits : m - p ≤ 64 := by have := hc.index_bits; cases f <;> simp only [maxIndexBits] at this <;> omega
  refine ⟨hp, ?_⟩
  rw [indexOf, xor_div_eq_top_mod hc.network hp hc.le_node hc.node_le, hmod]
  exact Nat.mod_eq_of_lt (lt_of_lt_of_le hi (Nat.pow_le_pow_right two_pos hbits))

theorem plain_blockAddress (hc : ClusterCIDR f a p m) {i : Nat} (hi : i < 2 ^ (m - p)) :
    f.Plain (blockAddress f a m i) :=
  hc.plain _ (mem_block hc hi rfl).1

/-- The addresses of block `i`: those read in the family with the first `m` bits of its
address. -/
theorem block_contains (hc : ClusterCIDR f a p m) {i : Nat} (hi : i < 2 ^ (m - p)) {ip : IP} :
    ((initial f a p m).indexToCIDRBlock i).contains ip = true ↔
      ∃ x, f.Reads ip x ∧ top x m = top (blockAddress f a m i) m := by
  rw [indexToCIDRBlock_eq hc hi]
  exact Family.contains (plain_blockAddress hc hi)

theorem getIndexForIP_of_block (hc : ClusterCIDR f a p m) {i : Nat} (hi : i < 2 ^ (m - p))
    {ip : IP} (h : ((initial f a p m).indexToCIDRBlock i).contains ip = true) :
    (initial f a p m).getIndexForIP ip = .ok i := by
  obtain ⟨x, hx, htop⟩ := (block_contains hc hi).mp h
  rw [getIndexForIP_eq hc hx, (mem_block hc hi htop).2, if_neg (not_le.mpr hi)]

theorem clusterNet_contains_of_block (hc : ClusterCIDR f a p m) {i : Nat} (hi : i < 2 ^ (m - p))
    {ip : IP} (h : ((initial f a p m).indexToCIDRBlock i).contains ip = true) :
    (clusterNet f a p).contains ip = true := by
  obtain ⟨x, hx, htop⟩ := (block_contains hc hi).mp h
  exact (Family.contains (hc.plain a rfl)).mpr ⟨x, hx, (mem_block hc hi htop).1⟩

/-- With a node mask of at most 64 bits the index is not cut: an address given an index is in
the cluster. -/
theorem clusterNet_contains_of_getIndexForIP (hc : ClusterCIDR f a p m) (hm : m ≤ 64) {ip : IP}
    {x : BitVec f.width} (hx : f.Reads ip x) {k : Int}
    (h : (initial f a p m).getIndexForIP ip = .ok k) : (clusterNet f a p).contains ip = true := by
  rw [getIndexForIP_eq hc hx] at h
  split_ifs at h with hge
  have hcut : (a.toNat ^^^ x.toNat) / 2 ^ (f.width - m) < 2 ^ 64 :=
    lt_of_lt_of_le (xor_div_lt a x hc.node_le) (Nat.pow_le_pow_right two_pos hm)
  rw [indexOf, Nat.mod_eq_of_lt hcut] at hge
  have htop := top_eq_of_xor_div_lt hc.le_node hc.node_le (not_le.mp hge)
  exact (Family.contains (hc.plain a rfl)).mpr ⟨x, hx, htop⟩

theorem indexToCIDRBlock_bijection (hc : ClusterCIDR f a p m) :
    ∃ s, newCIDRSet (clusterNet f a p) m = .ok s ∧ s.maxCIDRs = 2 ^ (m - p) ∧
      (∀ i : Nat, i < 2 ^ (m - p) →
        (s.indexToCIDRBlock i).mask = cidrMask m f.width ∧
        (∀ ip, (s.indexToCIDRBlock i).contains ip = true → (clusterNet f a p).contains ip = true) ∧
        s.getIndexForCIDR (s.indexToCIDRBlock i) = .ok i ∧
        ∀ ip, (s.indexToCIDRBlock i).contains ip = true → s.getIndexForIP ip = .ok i) ∧
      (∀ i j : Nat, i < 2 ^ (m - p) → j < 2 ^ (m - p) → i ≠ j → ∀ ip,
        ¬((s.indexToCIDRBlock i).contains ip = true ∧ (s.indexToCIDRBlock j).contains ip = true)) ∧
      (m ≤ 64 → ∀ ip x k, f.Reads ip x → s.getIndexForIP ip = .ok k →
        (clusterNet f a p).contains ip = true) := by
  refine ⟨initial f a p m, newCIDRSet_eq hc, rfl, fun i hi => ⟨?mask, fun ip h =>
      clusterNet_contains_of_block hc hi h, ?self, fun ip h => getIndexForIP_of_block hc hi h⟩,
    ?disjoint, fun hm ip x k hx h => clusterNet_contains_of_getIndexForIP hc hm hx h⟩
  case mask => rw [indexToCIDRBlock_eq hc hi, cidrMask_family hc.node_le]
  case self =>
    -- the block's own address is one of its addresses
    apply getIndexForIP_of_block hc hi
    rw [block_contains hc hi, indexToCIDRBlock_eq hc hi]
    exact ⟨_, Family.reads_ip (plain_blockAddress hc hi), rfl⟩
  case disjoint =>
    rintro i j hi hj hne ip ⟨hin, hjn⟩
    have hij := (getIndexForIP_of_block hc hi hin).symm.trans (getIndexForIP_of_block hc hj hjn)
    exact hne (by exact_mod_cast Except.ok.inj hij)

theorem indexToCIDRBlock_bijection_v4 :
    ClusterCIDR .v4 0x7f7b0000 16 24 ∧
      ∃ s, newCIDRSet (clusterNet .v4 0x7f7b0000 16) 24 = .ok s ∧ s.maxCIDRs = 2 ^ (24 - 16) ∧
      (∀ i : Nat, i < 2 ^ (24 - 16) →
        (s.indexToCIDRBlock i).mask = cidrMask 24 Family.v4.width ∧
        (∀ ip, (s.indexToCIDRBlock i).contains ip = true →
          (clusterNet .v4 0x7f7b0000 16).contains ip = true) ∧
        s.getIndexForCIDR (s.indexToCIDRBlock i) = .ok i ∧
        ∀ ip, (s.indexToCIDRBlock i).contains ip = true → s.getIndexForIP ip = .ok i) ∧
      (∀ i j : Nat, i < 2 ^ (24 - 16) → j < 2 ^ (24 - 16) → i ≠ j → ∀ ip,
        ¬((s.indexToCIDRBlock i).contains ip = true ∧ (s.indexToCIDRBlock j).contains ip = true)) ∧
      (24 ≤ 64 → ∀ ip x k, Family.v4.Reads ip x → s.getIndexForIP ip = .ok k →
        (clusterNet .v4 0x7f7b0000 16).contains ip = true) := by
  have hc : ClusterCIDR .v4 0x7f7b0000 16 24 :=
    ⟨by decide, by decide, by decide, by decide, fun _ _ => trivial⟩
  exact ⟨hc, indexToCIDRBlock_bijection hc⟩

/-- Three clusters outside `ClusterCIDR`: `0.0.0.0/0` with `/32` nodes, where
`uint32(maxCIDRs)` is `0` and no block gets its index back; `2001:db8::/64` with `/72` nodes,
where the index of `a001:db8::` is cut to its low 64 bits and comes out `0`; and
`::fffe:0:0/95` with `/96` nodes, whose block 1 is `::ffff:0.0.0.0/96`, which `To4` reads as
IPv4 and indexes as `0`. -/
theorem indexToCIDRBlock_bijection_fails :
    (∃ s, newCIDRSet ⟨.v4 0, .v4 (prefixMask 32 0)⟩ 32 = .ok s ∧ s.maxCIDRs = 2 ^ 32 ∧
      s.getIndexForCIDR (s.indexToCIDRBlock 0) = .error (.outOfAllocatorRange (.v4 0) 32)) ∧
    (∃ s, newCIDRSet ⟨.v6 0x20010db8000000000000000000000000, .v6 (prefixMask 128 64)⟩ 72 = .ok s ∧
      s.getIndexForIP (.v6 0xa0010db8000000000000000000000000) = .ok 0 ∧
      (IPNet.mk (.v6 0x20010db8000000000000000000000000) (.v6 (prefixMask 128 64))).contains
        (.v6 0xa0010db8000000000000000000000000) = false) ∧
    (∃ s, newCIDRSet ⟨.v6 0xfffe00000000, .v6 (prefixMask 128 95)⟩ 96 = .ok s ∧
      s.getIndexForCIDR (s.indexToCIDRBlock 1) = .ok 0) := by
  set_option maxRecDepth 4000 in
  exact ⟨⟨_, rfl, by decide, by decide⟩, ⟨_, rfl, by decide, by decide⟩, ⟨_, rfl, by decide⟩⟩

end Cidrset
end Kubernetes
