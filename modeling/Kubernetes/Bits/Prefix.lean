import Mathlib

/-!
# Prefixes of `w`-bit numbers

A network of prefix length `k` in a space of `w`-bit addresses is given by the first `k` bits
of its addresses, `top x k`; `prefixMask w k` is the mask that keeps them.  The lemmas turn
what address code does with bits (masking, filling the host bits, the `xor` with a network
address followed by a shift, the `or` of a network address with a shifted subnet number) into
arithmetic on `top`:

* `toNat_and_prefixMask`, `toNat_or_not_prefixMask` — the first and the last address of the
  network of `x`;
* `xor_div_eq_top_mod` — the subnet number of an address of the network;
* `top_eq_of_xor_div_lt` — an address whose subnet number is in range is in the network;
* `toNat_or_shiftLeft` — the address of a subnet.
-/

namespace Kubernetes
namespace Bits

variable {w : Nat}

/-- The mask of the first `k` of `w` bits. -/
def prefixMask (w k : Nat) : BitVec w :=
  BitVec.allOnes w <<< (w - k)
attribute [grind] prefixMask

/-- The first `k` bits of `x`, as a number. -/
def top (x : BitVec w) (k : Nat) : Nat :=
  x.toNat / 2 ^ (w - k)
attribute [grind] top

@[simp] theorem getLsbD_prefixMask (k j : Nat) :
    (prefixMask w k).getLsbD j = (decide (j < w) && decide (w - k ≤ j)) := by
  simp only [prefixMask, BitVec.getLsbD_shiftLeft, BitVec.getLsbD_allOnes]
  by_cases hj : j < w <;> by_cases hk : j < w - k <;> simp [hj, hk] <;> omega

theorem testBit_top (x : BitVec w) (k i : Nat) : (top x k).testBit i = x.getLsbD (i + (w - k)) := by
  rw [top, Nat.testBit_div_two_pow, BitVec.testBit_toNat]

/-- Masking keeps the first `k` bits and clears the others. -/
theorem toNat_and_prefixMask (x : BitVec w) (k : Nat) :
    (x &&& prefixMask w k).toNat = top x k * 2 ^ (w - k) := by
  apply Nat.eq_of_testBit_eq
  intro j
  rw [BitVec.testBit_toNat, BitVec.getLsbD_and, getLsbD_prefixMask, Nat.testBit_mul_two_pow,
    testBit_top]
  by_cases hj : w - k ≤ j
  · rw [Nat.sub_add_cancel hj]
    by_cases hw : j < w
    · simp [hj, hw]
    · simp [hw, x.getLsbD_of_ge j (by omega)]
  · simp [hj]

/-- Filling the host bits: the last address of the network. -/
theorem toNat_or_not_prefixMask (x : BitVec w) (k : Nat) :
    (x ||| ~~~prefixMask w k).toNat = top x k * 2 ^ (w - k) + (2 ^ (w - k) - 1) := by
  rw [Nat.mul_comm, Nat.two_pow_add_eq_or_of_lt (Nat.sub_lt (Nat.two_pow_pos _) Nat.one_pos)]
  apply Nat.eq_of_testBit_eq
  intro j
  rw [BitVec.testBit_toNat, BitVec.getLsbD_or, BitVec.getLsbD_not, getLsbD_prefixMask,
    Nat.testBit_or, Nat.mul_comm, Nat.testBit_mul_two_pow, Nat.testBit_two_pow_sub_one, testBit_top]
  by_cases hj : w - k ≤ j
  · rw [Nat.sub_add_cancel hj]
    by_cases hw : j < w
    · simp [hj, hw]
    · simp [hw, x.getLsbD_of_ge j (by omega)]
      omega
  · have hw : j < w := by omega
    simp [hj, hw]
    omega

/-- Two addresses agree on the first `k` bits exactly when their masks do. -/
theorem and_prefixMask_eq_iff {x y : BitVec w} {k : Nat} :
    x &&& prefixMask w k = y &&& prefixMask w k ↔ top x k = top y k := by
  rw [← BitVec.toNat_inj, toNat_and_prefixMask, toNat_and_prefixMask]
  exact Nat.mul_left_inj (Nat.two_pow_pos _).ne'

/-- A network address in network form is its first `k` bits followed by zeros. -/
theorem toNat_eq_top_mul {x : BitVec w} {k : Nat} (hx : x &&& prefixMask w k = x) :
    x.toNat = top x k * 2 ^ (w - k) := by
  rw [← toNat_and_prefixMask, hx]

/-- The first `k` bits are the first `k` of the first `l ≥ k`. -/
theorem top_div (x : BitVec w) {k l : Nat} (hkl : k ≤ l) (hl : l ≤ w) :
    top x l / 2 ^ (l - k) = top x k := by
  rw [top, top, Nat.div_div_eq_div_mul, ← Nat.pow_add]
  congr 2
  omega

theorem top_eq_of_le {x y : BitVec w} {k l : Nat} (hkl : k ≤ l) (hl : l ≤ w)
    (h : top x l = top y l) : top x k = top y k := by
  rw [← top_div x hkl hl, ← top_div y hkl hl, h]

/-- A network address in network form at `k` has zeros after its first `k` bits. -/
theorem top_of_aligned {x : BitVec w} {k l : Nat} (hx : x &&& prefixMask w k = x) (hkl : k ≤ l)
    (hl : l ≤ w) : top x l = top x k * 2 ^ (l - k) := by
  have hsplit : 2 ^ (w - k) = 2 ^ (l - k) * 2 ^ (w - l) := by rw [← Nat.pow_add]; congr 1; omega
  rw [top, toNat_eq_top_mul hx, hsplit, ← Nat.mul_assoc, Nat.mul_div_cancel _ (Nat.two_pow_pos _)]

/-- Masking to a longer prefix keeps a shorter one. -/
theorem top_and_prefixMask (x : BitVec w) {k l : Nat} (hkl : k ≤ l) (hl : l ≤ w) :
    top (x &&& prefixMask w l) k = top x k := by
  rw [← top_div _ hkl hl, top, toNat_and_prefixMask, Nat.mul_div_cancel _ (Nat.two_pow_pos _),
    top_div x hkl hl]

/-- Filling the host bits of a longer prefix keeps a shorter one. -/
theorem top_or_not_prefixMask_of_le (x : BitVec w) {k l : Nat} (hkl : k ≤ l) (hl : l ≤ w) :
    top (x ||| ~~~prefixMask w l) k = top x k := by
  have hsplit : 2 ^ (w - k) = 2 ^ (w - l) * 2 ^ (l - k) := by rw [← Nat.pow_add]; congr 1; omega
  have hhost : 2 ^ (w - l) - 1 < 2 ^ (w - l) := Nat.sub_lt (Nat.two_pow_pos _) Nat.one_pos
  rw [top, toNat_or_not_prefixMask, hsplit, ← Nat.div_div_eq_div_mul,
    Nat.add_comm, Nat.add_mul_div_right _ _ (Nat.two_pow_pos _), Nat.div_eq_of_lt hhost,
    Nat.zero_add, top_div x hkl hl]

/-- Filling the host bits of a shorter prefix `l`: the last subnet of length `k` in it. -/
theorem top_or_not_prefixMask_of_ge (x : BitVec w) {k l : Nat} (hlk : l ≤ k) (hk : k ≤ w) :
    top (x ||| ~~~prefixMask w l) k = top x l * 2 ^ (k - l) + (2 ^ (k - l) - 1) := by
  have hsplit : 2 ^ (w - l) = 2 ^ (k - l) * 2 ^ (w - k) := by rw [← Nat.pow_add]; congr 1; omega
  have hhost : 2 ^ (w - k) - 1 < 2 ^ (w - k) := Nat.sub_lt (Nat.two_pow_pos _) Nat.one_pos
  have hfill : 2 ^ (k - l) * 2 ^ (w - k) - 1 = (2 ^ (k - l) - 1) * 2 ^ (w - k) + (2 ^ (w - k) - 1) := by
    have h1 : 1 ≤ 2 ^ (k - l) := Nat.one_le_two_pow
    have h2 : 1 ≤ 2 ^ (w - k) := Nat.one_le_two_pow
    rw [Nat.sub_mul, Nat.one_mul]
    have h3 : 2 ^ (w - k) ≤ 2 ^ (k - l) * 2 ^ (w - k) := Nat.le_mul_of_pos_left _ h1
    omega
  rw [top, toNat_or_not_prefixMask, hsplit, hfill, ← Nat.mul_assoc, ← Nat.add_assoc, ← Nat.add_mul,
    Nat.add_comm _ (2 ^ (w - k) - 1), Nat.add_mul_div_right _ _ (Nat.two_pow_pos _),
    Nat.div_eq_of_lt hhost, Nat.zero_add]

/-- The `xor` of an address with the network address of its network is its host part. -/
theorem toNat_xor_of_top_eq {c x : BitVec w} {p : Nat} (hc : c &&& prefixMask w p = c)
    (hx : top x p = top c p) : (c ^^^ x).toNat = x.toNat % 2 ^ (w - p) := by
  apply Nat.eq_of_testBit_eq
  intro j
  rw [BitVec.testBit_toNat, BitVec.getLsbD_xor, Nat.testBit_mod_two_pow, BitVec.testBit_toNat]
  by_cases hj : j < w - p
  · -- below the prefix the network address has no bits
    have hcj : c.getLsbD j = false := by
      rw [← hc, BitVec.getLsbD_and, getLsbD_prefixMask]
      simp [show ¬(w - p ≤ j) by omega]
    simp [hj, hcj]
  · -- on the prefix the two agree
    have hagree : c.getLsbD j = x.getLsbD j := by
      have := congrArg (fun n => Nat.testBit n (j - (w - p))) hx
      simp only [testBit_top, Nat.sub_add_cancel (not_lt.mp hj)] at this
      exact this.symm
    simp [hj, hagree]

/-- The subnet number of an address of the network: its bits from `p` to `m`. -/
theorem xor_div_eq_top_mod {c x : BitVec w} {p m : Nat} (hc : c &&& prefixMask w p = c)
    (hx : top x p = top c p) (hpm : p ≤ m) (hm : m ≤ w) :
    (c.toNat ^^^ x.toNat) / 2 ^ (w - m) = top x m % 2 ^ (m - p) := by
  have hsplit : 2 ^ (w - p) = 2 ^ (w - m) * 2 ^ (m - p) := by rw [← Nat.pow_add]; congr 1; omega
  rw [← BitVec.toNat_xor, toNat_xor_of_top_eq hc hx, hsplit, Nat.mod_mul_right_div_self, top]

/-- An address whose subnet number is below the number of subnets is in the network. -/
theorem top_eq_of_xor_div_lt {c x : BitVec w} {p m : Nat} (hpm : p ≤ m) (hm : m ≤ w)
    (hlt : (c.toNat ^^^ x.toNat) / 2 ^ (w - m) < 2 ^ (m - p)) : top x p = top c p := by
  have hsplit : 2 ^ (w - m) * 2 ^ (m - p) = 2 ^ (w - p) := by rw [← Nat.pow_add]; congr 1; omega
  rw [Nat.div_lt_iff_lt_mul (Nat.two_pow_pos _), Nat.mul_comm, hsplit] at hlt
  apply Nat.eq_of_testBit_eq
  intro i
  -- the `xor` has no bits from `w - p` on
  have hzero := Nat.testBit_eq_false_of_lt (lt_of_lt_of_le hlt (Nat.pow_le_pow_right two_pos
    (Nat.le_add_left (w - p) i)))
  rw [Nat.testBit_xor, BitVec.testBit_toNat, BitVec.testBit_toNat] at hzero
  rw [testBit_top, testBit_top]
  revert hzero
  cases c.getLsbD (i + (w - p)) <;> cases x.getLsbD (i + (w - p)) <;> simp

/-- The address of subnet `i` of a network: the network address with `i` after its prefix. -/
theorem toNat_or_shiftLeft {c : BitVec w} {p m i : Nat} (hc : c &&& prefixMask w p = c)
    (hpm : p ≤ m) (hm : m ≤ w) (hi : i < 2 ^ (m - p)) :
    (c ||| BitVec.ofNat w i <<< (w - m)).toNat = c.toNat + i * 2 ^ (w - m) := by
  have hsplit : 2 ^ (w - p) = 2 ^ (m - p) * 2 ^ (w - m) := by rw [← Nat.pow_add]; congr 1; omega
  have hsub : i * 2 ^ (w - m) < 2 ^ (w - p) := by
    rw [hsplit]
    exact Nat.mul_lt_mul_of_pos_right hi (Nat.two_pow_pos _)
  have hw : 2 ^ (w - p) ≤ 2 ^ w := Nat.pow_le_pow_right two_pos (Nat.sub_le w p)
  have hshift : (BitVec.ofNat w i <<< (w - m)).toNat = i * 2 ^ (w - m) := by
    have hiw : i < 2 ^ w := lt_of_lt_of_le hi (Nat.pow_le_pow_right two_pos (by omega))
    rw [BitVec.toNat_shiftLeft, BitVec.toNat_ofNat, Nat.shiftLeft_eq, Nat.mod_eq_of_lt hiw,
      Nat.mod_eq_of_lt (show i * 2 ^ (w - m) < 2 ^ w by omega)]
  rw [BitVec.toNat_or, hshift, toNat_eq_top_mul hc, Nat.mul_comm (top c p),
    ← Nat.two_pow_add_eq_or_of_lt hsub]

theorem top_or_shiftLeft {c : BitVec w} {p m i : Nat} (hc : c &&& prefixMask w p = c)
    (hpm : p ≤ m) (hm : m ≤ w) (hi : i < 2 ^ (m - p)) :
    top (c ||| BitVec.ofNat w i <<< (w - m)) m = top c m + i := by
  rw [top, toNat_or_shiftLeft hc hpm hm hi, Nat.add_mul_div_right _ _ (Nat.two_pow_pos _), top]

/-- The `xor` of two addresses, shifted past the last `w - m` bits, has at most `m` bits. -/
theorem xor_div_lt (c x : BitVec w) {m : Nat} (hm : m ≤ w) :
    (c.toNat ^^^ x.toNat) / 2 ^ (w - m) < 2 ^ m := by
  rw [Nat.div_lt_iff_lt_mul (Nat.two_pow_pos _), ← Nat.pow_add, Nat.add_sub_cancel' hm,
    ← BitVec.toNat_xor]
  exact (c ^^^ x).isLt

/-- An address whose first `m` bits are those of subnet `i` of the network `c`: it is in the
network, and its bits from `p` to `m` are `i`. -/
theorem top_of_top_eq_add {c x : BitVec w} {p m i : Nat} (hc : c &&& prefixMask w p = c)
    (hpm : p ≤ m) (hm : m ≤ w) (hi : i < 2 ^ (m - p)) (hx : top x m = top c m + i) :
    top x p = top c p ∧ top x m % 2 ^ (m - p) = i := by
  have hcm : top c m = top c p * 2 ^ (m - p) := top_of_aligned hc hpm hm
  constructor
  · rw [← top_div x hpm hm, hx, hcm, Nat.add_comm, Nat.add_mul_div_right _ _ (Nat.two_pow_pos _),
      Nat.div_eq_of_lt hi, Nat.zero_add]
  · rw [hx, hcm, Nat.add_comm, Nat.add_mul_mod_self_right, Nat.mod_eq_of_lt hi]

/-- The subnets of length `m` that meet the network `c/q`: those between its first and its last
subnet of length `m`. -/
theorem top_min_eq_iff {c x : BitVec w} {q m : Nat} (hc : c &&& prefixMask w q = c) (hq : q ≤ w)
    (hm : m ≤ w) :
    top x (min m q) = top c (min m q) ↔
      top c m ≤ top x m ∧ top x m ≤ top (c ||| ~~~prefixMask w q) m := by
  by_cases hmq : m ≤ q
  · -- the network lies inside one subnet of length `m`: its last one is its first
    rw [Nat.min_eq_left hmq, top_or_not_prefixMask_of_le c hmq hq]
    omega
  · -- the subnets of length `m` of `c/q` are those whose first `q` bits are `c`'s
    have hqm : q ≤ m := by omega
    have hK : 0 < 2 ^ (m - q) := Nat.two_pow_pos _
    rw [Nat.min_eq_right hqm, top_or_not_prefixMask_of_ge c hqm hm, top_of_aligned hc hqm hm,
      ← top_div x hqm hm, Nat.div_eq_iff hK, Nat.add_sub_assoc hK]

end Bits
end Kubernetes
