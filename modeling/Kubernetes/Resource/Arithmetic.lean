import Kubernetes.Resource.Compare

/-!
# `Add`, `Sub` and `Neg`: exact while the `int64` checks hold

`int64Add` and `int64MultiplyScale` compute in wrapping `int64` arithmetic and then test
the result (a sign test, and `c/b == a` after a multiplication).  Both tests are sound on
`int64` operands (`int64Add_eq`, `int64MultiplyScale_eq`): a result is returned only when it
is the exact one, and otherwise `int64Amount.Add` fails before changing the receiver, so the
`inf.Dec` fallback starts from the original value.  `Quantity.add_toRat` and
`Quantity.sub_toRat` assemble this for amounts whose scales are less than `2^31` apart.

Two inputs break exactness.  `Sub` and `Neg` negate in `int64`, and `-MinInt64` is
`MinInt64`; and a scale gap of `2^31` or more wraps to a negative scale, which
`positiveScaleInt64` takes as no shift (`sub_neg_add_inexact`).
-/

namespace Kubernetes
namespace Resource

open Go Inf

/-! ## The overflow checks of `math.go` -/

section Checks

variable {a b c : Int}

/-- `wrap64 n` is `n` less a multiple of `2^64`, in the `int64` range. -/
theorem wrap64_spec (n : Int) :
    ∃ k, wrap64 n = n - 2 ^ 64 * k ∧ minInt64 ≤ wrap64 n ∧ wrap64 n ≤ maxInt64 := by
  unfold wrap64 minInt64 maxInt64
  rw [Int.bmod_def]
  split
  · exact ⟨n / 2 ^ 64, by omega, by omega, by omega⟩
  · exact ⟨n / 2 ^ 64 + 1, by omega, by omega, by omega⟩

/-- `int64Add` either fails or returns the exact sum. -/
theorem int64Add_eq (ha : minInt64 ≤ a ∧ a ≤ maxInt64) (hb : minInt64 ≤ b ∧ b ≤ maxInt64)
    (h : int64Add a b = some c) : c = a + b ∧ minInt64 ≤ c ∧ c ≤ maxInt64 := by
  obtain ⟨k, hk, hlo, hhi⟩ := wrap64_spec (a + b)
  unfold int64Add at h
  dsimp only at h
  generalize wrap64 (a + b) = w at hk hlo hhi h
  unfold mostNegative mostPositive minInt64 maxInt64 at *
  split_ifs at h <;> cases h <;> omega

/-- `int64MultiplyScale` by a factor `1 < b < 2^63` either fails or returns the exact
product: a wrapped product is off by a multiple of `2^64`, which moves its quotient by `b`
away from `a`, so the check `c/b == a` catches it. -/
theorem int64MultiplyScale_eq (ha : minInt64 ≤ a ∧ a ≤ maxInt64) (hb : 1 < b)
    (hb' : b ≤ maxInt64) (h : int64MultiplyScale a b = some c) :
    c = a * b ∧ minInt64 ≤ c ∧ c ≤ maxInt64 := by
  obtain ⟨k, hk, hlo, hhi⟩ := wrap64_spec (a * b)
  unfold int64MultiplyScale at h
  dsimp only at h
  split_ifs at h with h₀ h₁ h₂ <;> cases h
  · -- `a` is `0` or `1`: the product is `0` or `b`, which fits
    refine ⟨?_, hlo, hhi⟩
    rcases h₀ with rfl | rfl <;> simp only [zero_mul, one_mul] at * <;>
      unfold minInt64 maxInt64 at * <;> omega
  · -- the quotient check: `c = b * a + m` with `|m| < b` and `c = a * b - 2^64 * k`
    obtain ⟨hdiv, hm⟩ := tdiv_tmod_spec (wrap64 (a * b)) (by omega : 0 < b)
    have hq : (wrap64 (a * b)).tdiv b = a := by
      -- the quotient is at most half of `c`, so `wrap64` leaves it alone
      have hle : ((wrap64 (a * b)).tdiv b).natAbs ≤ (wrap64 (a * b)).natAbs / 2 := by
        rw [Int.natAbs_tdiv]
        exact Nat.div_le_div_left (by omega) (by decide)
      have hlo' : minInt64 ≤ (wrap64 (a * b)).tdiv b := by unfold minInt64 maxInt64 at *; omega
      have hhi' : (wrap64 (a * b)).tdiv b ≤ maxInt64 := by unfold minInt64 maxInt64 at *; omega
      rwa [wrap64_of_mem hlo' hhi'] at h₂
    rw [hq, Int.mul_comm] at hdiv
    refine ⟨?_, hlo, hhi⟩
    unfold minInt64 maxInt64 at *
    omega

/-- The loop of `positiveScaleInt64`: `n` checked multiplications by ten. -/
theorem multiplyScale10Times_eq {n : Nat} (ha : minInt64 ≤ a ∧ a ≤ maxInt64)
    (h : multiplyScale10Times n a = some c) : c = a * 10 ^ n ∧ minInt64 ≤ c ∧ c ≤ maxInt64 := by
  induction n generalizing a with
  | zero =>
    cases h
    exact ⟨by ring, ha⟩
  | succ n ih =>
    obtain ⟨a', ha', hrest⟩ := Option.bind_eq_some_iff.mp h
    obtain ⟨rfl, hlo, hhi⟩ := int64MultiplyScale_eq ha (by norm_num) (by norm_num [maxInt64]) ha'
    obtain ⟨rfl, hc⟩ := ih ⟨hlo, hhi⟩ hrest
    exact ⟨by ring, hc⟩

/-- `positiveScaleInt64` at a scale `k ≥ 0` either fails or returns `base * 10^k`. -/
theorem positiveScaleInt64_eq {k : Int} (hk : 0 ≤ k) (ha : minInt64 ≤ a ∧ a ≤ maxInt64)
    (h : positiveScaleInt64 a k = some c) :
    c = a * 10 ^ k.toNat ∧ minInt64 ≤ c ∧ c ≤ maxInt64 := by
  unfold positiveScaleInt64 int64MultiplyScale10 int64MultiplyScale100 int64MultiplyScale1000 at h
  split_ifs at h with h0 h1 h2 h3 h6 h9
  · cases h
    subst h0
    exact ⟨by simp, ha⟩
  -- the default branch is the loop; the others one checked multiplication each
  all_goals first
    | exact multiplyScale10Times_eq ha h
    | obtain ⟨rfl, hc⟩ := int64MultiplyScale_eq ha (by norm_num) (by norm_num [maxInt64]) h
      subst_vars
      exact ⟨by simp, hc⟩

end Checks

/-! ## `int64Amount.Add` -/

/-- Two amounts on the `int64` path whose scales are less than `2^31` apart. -/
structure AddableAmounts (a b : Int64Amount) : Prop where
  left : minInt64 ≤ a.value ∧ a.value ≤ maxInt64
  right : minInt64 ≤ b.value ∧ b.value ≤ maxInt64
  gap : (a.scale - b.scale).natAbs < 2 ^ 31

/-- `int64Amount.Add` either reports overflow or returns the exact sum, again an `int64`. -/
theorem Int64Amount.add_toRat {a b c : Int64Amount} (hab : AddableAmounts a b)
    (h : a.add b = some c) :
    c.toRat = a.toRat + b.toRat ∧ minInt64 ≤ c.value ∧ c.value ≤ maxInt64 := by
  unfold Int64Amount.add at h
  split_ifs at h with hb0 ha0 heq hlt
  · cases h
    simp [Int64Amount.toRat, hb0, hab.left]
  · cases h
    simp [Int64Amount.toRat, ha0, hab.right]
  · -- one scale: a single checked addition
    obtain ⟨v, hv, rfl⟩ := Option.map_eq_some_iff.mp h
    obtain ⟨rfl, hrange⟩ := int64Add_eq hab.left hab.right hv
    refine ⟨?_, hrange⟩
    simp only [Int64Amount.toRat, heq]
    push_cast
    ring
  · -- `a` is brought down to the scale of `b`, then added
    rw [toInt32_of_mem (by have := hab.gap; omega) (by have := hab.gap; omega)] at h
    obtain ⟨v, hv, h'⟩ := Option.bind_eq_some_iff.mp h
    obtain ⟨w, hw, rfl⟩ := Option.map_eq_some_iff.mp h'
    obtain ⟨rfl, hvr⟩ := positiveScaleInt64_eq (by omega) hab.left hv
    obtain ⟨rfl, hrange⟩ := int64Add_eq hvr hab.right hw
    refine ⟨?_, hrange⟩
    rw [a.toRat_at_scale hlt.le]
    simp only [Int64Amount.toRat]
    push_cast
    ring
  · -- `b` is brought down to the scale of `a`
    have hlt' : a.scale < b.scale := by omega
    rw [toInt32_of_mem (by have := hab.gap; omega) (by have := hab.gap; omega)] at h
    obtain ⟨v, hv, h'⟩ := Option.bind_eq_some_iff.mp h
    obtain ⟨w, hw, rfl⟩ := Option.map_eq_some_iff.mp h'
    obtain ⟨rfl, hvr⟩ := positiveScaleInt64_eq (by omega) hab.right hv
    obtain ⟨rfl, hrange⟩ := int64Add_eq hab.left hvr hw
    refine ⟨?_, hrange⟩
    rw [b.toRat_at_scale hlt'.le]
    simp only [Int64Amount.toRat]
    push_cast
    ring

/-- `int64Amount.Sub` is the addition of the negated amount; away from `MinInt64` that
negation is exact. -/
theorem Int64Amount.sub_toRat {a b c : Int64Amount} (hab : AddableAmounts a b)
    (hmin : b.value ≠ minInt64) (h : a.sub b = some c) :
    c.toRat = a.toRat - b.toRat ∧ minInt64 ≤ c.value ∧ c.value ≤ maxInt64 := by
  have hb := hab.right
  have hneg : minInt64 ≤ -b.value ∧ -b.value ≤ maxInt64 := by
    unfold minInt64 maxInt64 at *
    omega
  unfold Int64Amount.sub at h
  rw [wrap64_of_mem hneg.1 hneg.2] at h
  have hab' : AddableAmounts a ⟨-b.value, b.scale⟩ := ⟨hab.left, hneg, hab.gap⟩
  obtain ⟨hval, hrange⟩ := Int64Amount.add_toRat hab' h
  refine ⟨?_, hrange⟩
  rw [hval]
  simp only [Int64Amount.toRat]
  push_cast
  ring

/-! ## `Quantity.Add`, `Sub` and `Neg` -/

theorem Quantity.toDec_asDec (q : Quantity) : q.toDec.asDec = q.asDec := by
  obtain ⟨i, d, s, format⟩ := q
  cases d <;> rfl

/-- The `inf.Dec` fallback of `Add` computes from the original value. -/
theorem Quantity.toRat_toDec_add (q y : Quantity) :
    { q.toDec with d := some (q.toDec.asDec.add y.asDec) }.toRat = q.toRat + y.toRat := by
  show (q.toDec.asDec.add y.asDec).toRat = _
  rw [Dec.add_toRat, q.toDec_asDec, q.asDec_toRat, y.asDec_toRat]

theorem Quantity.toRat_toDec_sub (q y : Quantity) :
    { q.toDec with d := some (q.toDec.asDec.sub y.asDec) }.toRat = q.toRat - y.toRat := by
  show (q.toDec.asDec.sub y.asDec).toRat = _
  rw [Dec.sub_toRat, q.toDec_asDec, q.asDec_toRat, y.asDec_toRat]

/-- `Quantity.Add` is exact when the `int64` amounts are `int64`s less than `2^31` scales
apart: the fast path is exact when it succeeds, and on overflow the `inf.Dec` path starts
from the unchanged receiver. -/
theorem Quantity.add_toRat {q y : Quantity} (h : AddableAmounts q.i y.i) :
    (q.add y).toRat = q.toRat + y.toRat := by
  unfold Quantity.add
  split
  · rename_i hqd hyd
    dsimp only
    split
    · rename_i i hi
      obtain ⟨hval, -⟩ := Int64Amount.add_toRat h hi
      simp [Quantity.toRat, hqd, hyd, hval]
    · exact Quantity.toRat_toDec_add _ y
  · exact Quantity.toRat_toDec_add _ y

theorem Quantity.sub_toRat {q y : Quantity} (h : AddableAmounts q.i y.i)
    (hmin : y.i.value ≠ minInt64) : (q.sub y).toRat = q.toRat - y.toRat := by
  unfold Quantity.sub
  dsimp only
  split
  · rename_i hqd hyd
    split
    · rename_i i hi
      obtain ⟨hval, -⟩ := Int64Amount.sub_toRat h hmin hi
      simp [Quantity.toRat, hqd, hyd, hval]
    · exact Quantity.toRat_toDec_sub _ y
  · exact Quantity.toRat_toDec_sub _ y

theorem Quantity.neg_toRat {q : Quantity} (hq : minInt64 ≤ q.i.value ∧ q.i.value ≤ maxInt64)
    (hmin : q.i.value ≠ minInt64) : q.neg.toRat = -q.toRat := by
  obtain ⟨i, d, s, format⟩ := q
  dsimp only at hq hmin
  cases d with
  | some d => exact Dec.neg_toRat d
  | none =>
    have hneg : minInt64 ≤ -i.value ∧ -i.value ≤ maxInt64 := by
      unfold minInt64 maxInt64 at *
      omega
    simp only [Quantity.neg, Quantity.toRat, Int64Amount.toRat, wrap64_of_mem hneg.1 hneg.2]
    push_cast
    ring

/-- `Sub` negates the subtrahend and `Neg` the receiver in `int64`, and `-MinInt64` wraps
back to `MinInt64`: `0 - MinInt64` and `-MinInt64` both come out as `MinInt64`, not `2^63`.
`Add` of amounts `2^31` or more scales apart shifts by the wrapped, negative scale, which
`positiveScaleInt64` treats as no shift at all: `1e2147483647 + 1n` is `2n`. -/
theorem sub_neg_add_inexact :
    ((newQuantity 0 .decimalSI).sub (newQuantity minInt64 .decimalSI)).toRat = -2 ^ 63 ∧
      (newQuantity minInt64 .decimalSI).neg.toRat = -2 ^ 63 ∧
      (newQuantity minInt64 .decimalSI).toRat = -2 ^ 63 ∧
      ((newScaledQuantity 1 2147483647).add (newScaledQuantity 1 (-9))).toRat = 2 / 10 ^ 9 ∧
      1 < (newScaledQuantity 1 2147483647).toRat := by
  have hsub : (newQuantity 0 .decimalSI).sub (newQuantity minInt64 .decimalSI) =
      newQuantity minInt64 .decimalSI := by decide
  have hneg : (newQuantity minInt64 .decimalSI).neg = newQuantity minInt64 .decimalSI := by
    decide
  have hadd : (newScaledQuantity 1 2147483647).add (newScaledQuantity 1 (-9)) =
      newScaledQuantity 2 (-9) := by decide
  have hmin : (newQuantity minInt64 .decimalSI).toRat = -2 ^ 63 := by
    norm_num [newQuantity, Quantity.toRat, Int64Amount.toRat, minInt64]
  refine ⟨by rw [hsub, hmin], by rw [hneg, hmin], hmin, ?_, ?_⟩
  · rw [hadd]
    norm_num [newScaledQuantity, Quantity.toRat, Int64Amount.toRat]
  · show ((1 : Int) : ℚ) * 10 ^ (2147483647 : Int) > 1
    rw [Int.cast_one, one_mul]
    exact one_lt_zpow₀ (by norm_num) (by norm_num)

end Resource
end Kubernetes
