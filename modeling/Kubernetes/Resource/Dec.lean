import Kubernetes.Go.Strconv
import Mathlib.Algebra.Order.Field.Power
import Mathlib.Algebra.Order.Ring.Rat
import Mathlib.Tactic.Ring

/-!
# `gopkg.in/inf.v0`: arbitrary-precision decimals

An `inf.Dec` is an unbounded integer `unscaled` and a scale: its value is
`unscaled × 10^(-scale)`.  The operations `Quantity` uses: `Sign`, `Neg`, `Cmp`, `Add`,
`Sub` (both on the larger of the two scales, `upscale`), `Round` with `RoundUp` (away from
zero), and `SetString` (the decimal scanner `scan`, which needs at least one digit and
must consume the whole string).  `inf.Scale` is an `int32`; the model keeps it unbounded,
and the one place the parser can overflow it wraps explicitly (`Go.toInt32`).

`Dec.toRat` is the value; `Dec.rescale_up_toRat` and `Dec.cmp_eq` connect the operations to
it.
-/

namespace Kubernetes
namespace Inf

open Go

/-- `inf.Dec`. -/
structure Dec where
  unscaled : Int
  scale : Int
  deriving DecidableEq, Repr

/-- `inf.NewDec`. -/
def newDec (unscaled scale : Int) : Dec :=
  ⟨unscaled, scale⟩
attribute [grind] newDec

/-- The three-way comparison of `big.Int.Cmp`. -/
def cmpInt (a b : Int) : Int :=
  if a < b then -1 else if a = b then 0 else 1
attribute [grind] cmpInt

/-- `Dec.Sign`. -/
def Dec.sign (x : Dec) : Int :=
  x.unscaled.sign
attribute [grind] Dec.sign

/-- `Dec.Neg`. -/
def Dec.neg (x : Dec) : Dec :=
  ⟨-x.unscaled, x.scale⟩
attribute [grind] Dec.neg

/-- `Dec.rescale`: the same value at another scale, truncating when the scale drops. -/
def Dec.rescale (x : Dec) (newScale : Int) : Dec :=
  if newScale < x.scale then ⟨x.unscaled.tdiv (10 ^ (x.scale - newScale).toNat), newScale⟩
  else if x.scale < newScale then ⟨x.unscaled * 10 ^ (newScale - x.scale).toNat, newScale⟩
  else x
attribute [grind] Dec.rescale

/-- `upscale`: both at the larger scale. -/
def upscale (a b : Dec) : Dec × Dec :=
  if a.scale = b.scale then (a, b)
  else if b.scale < a.scale then (a, b.rescale a.scale)
  else (a.rescale b.scale, b)
attribute [grind] upscale

/-- `Dec.Cmp`. -/
def Dec.cmp (x y : Dec) : Int :=
  let (xx, yy) := upscale x y
  cmpInt xx.unscaled yy.unscaled
attribute [grind] Dec.cmp

/-- `Dec.Add`. -/
def Dec.add (x y : Dec) : Dec :=
  let (xx, yy) := upscale x y
  ⟨xx.unscaled + yy.unscaled, xx.scale⟩
attribute [grind] Dec.add

/-- `Dec.Sub`. -/
def Dec.sub (x y : Dec) : Dec :=
  let (xx, yy) := upscale x y
  ⟨xx.unscaled - yy.unscaled, xx.scale⟩
attribute [grind] Dec.sub

/-- `Dec.Round(x, s, inf.RoundUp)`: `x` at scale `s`, rounded away from zero. -/
def Dec.roundUp (x : Dec) (s : Int) : Dec :=
  if x.scale ≤ s then ⟨x.unscaled * 10 ^ (s - x.scale).toNat, s⟩
  else
    let d : Int := 10 ^ (x.scale - s).toNat
    let q := x.unscaled.tdiv d
    ⟨if x.unscaled.tmod d = 0 then q else q + x.unscaled.sign, s⟩
attribute [grind] Dec.roundUp

/-- The loop of `Dec.scan`: the characters kept for the unscaled value, the position of the
decimal point among them, whether a digit was read, and the characters not consumed.  A
sign is only taken first, a point only once; anything else stops the scan. -/
def scanLoop : List Char → List Char → Option Nat → Bool → List Char × Option Nat × Bool × List Char
  | [], unscaled, dp, dg => (unscaled, dp, dg, [])
  | c :: rest, unscaled, dp, dg =>
      if c = '+' ∨ c = '-' then
        if unscaled ≠ [] ∨ dp.isSome then (unscaled, dp, dg, c :: rest)
        else scanLoop rest (unscaled ++ [c]) dp dg
      else if c = '.' then
        if dp.isSome then (unscaled, dp, dg, c :: rest)
        else scanLoop rest unscaled (some unscaled.length) dg
      else if c.isDigit then scanLoop rest (unscaled ++ [c]) dp true
      else (unscaled, dp, dg, c :: rest)
attribute [grind] scanLoop

/-- `big.Int.SetString(s, 10)` on what `scan` keeps: an optional sign, then digits. -/
def signedDecimalValue : List Char → Int
  | '-' :: ds => -(decimalValue ds : Int)
  | '+' :: ds => decimalValue ds
  | ds => decimalValue ds
attribute [grind] signedDecimalValue

/-- `Dec.SetString`: the scan must read a digit and consume the whole string; the scale is
the number of digits after the point. -/
def Dec.setString (s : String) : Option Dec :=
  match scanLoop s.toList [] none false with
  | (unscaled, dp, true, []) =>
      some ⟨signedDecimalValue unscaled, match dp with
        | some p => (unscaled.length - p : Nat)
        | none => 0⟩
  | _ => none
attribute [grind] Dec.setString

/-! ## Values -/

/-- The value of a decimal. -/
def Dec.toRat (x : Dec) : ℚ :=
  x.unscaled * (10 : ℚ) ^ (-x.scale)
attribute [grind] Dec.toRat

/-- Every branch of `Dec.rescale` lands on the scale asked for. -/
theorem Dec.scale_rescale (x : Dec) (newScale : Int) : (x.rescale newScale).scale = newScale := by
  unfold Dec.rescale
  split_ifs with hlt hgt
  · rfl
  · rfl
  · omega

/-- Raising the scale keeps the value. -/
theorem Dec.rescale_up_toRat (x : Dec) {newScale : Int} (h : x.scale ≤ newScale) :
    (x.rescale newScale).toRat = x.toRat := by
  unfold Dec.rescale Dec.toRat
  rcases h.lt_or_eq with hlt | heq
  · rw [if_neg (by omega), if_pos hlt]
    have hpow : ((10 : ℚ) ^ (newScale - x.scale).toNat) = (10 : ℚ) ^ (newScale - x.scale) := by
      have h := zpow_natCast (10 : ℚ) (newScale - x.scale).toNat
      rw [Int.toNat_of_nonneg (by omega)] at h
      exact h.symm
    push_cast
    rw [hpow, mul_assoc, ← zpow_add₀ (show (10 : ℚ) ≠ 0 by norm_num)]
    congr 2
    ring
  · subst heq
    simp

/-- `upscale` puts both decimals at one scale without changing their values. -/
theorem upscale_spec (a b : Dec) :
    (upscale a b).1.scale = (upscale a b).2.scale ∧ (upscale a b).1.toRat = a.toRat ∧
      (upscale a b).2.toRat = b.toRat := by
  unfold upscale
  split_ifs with heq hlt
  · exact ⟨heq, rfl, rfl⟩
  · exact ⟨(b.scale_rescale a.scale).symm, rfl, b.rescale_up_toRat hlt.le⟩
  · have hle : a.scale ≤ b.scale := by omega
    exact ⟨a.scale_rescale b.scale, a.rescale_up_toRat hle, rfl⟩

/-- At one scale, values compare as the unscaled integers do. -/
theorem toRat_lt_iff_of_scale_eq {a b : Dec} (h : a.scale = b.scale) :
    a.toRat < b.toRat ↔ a.unscaled < b.unscaled := by
  unfold Dec.toRat
  rw [h, mul_lt_mul_iff_of_pos_right (zpow_pos (by norm_num) _)]
  exact Int.cast_lt

theorem toRat_eq_iff_of_scale_eq {a b : Dec} (h : a.scale = b.scale) :
    a.toRat = b.toRat ↔ a.unscaled = b.unscaled := by
  unfold Dec.toRat
  rw [h, mul_left_inj' (zpow_ne_zero _ (by norm_num))]
  exact Int.cast_inj

/-- `Dec.Cmp` compares values. -/
theorem Dec.cmp_eq (x y : Dec) :
    x.cmp y = if x.toRat < y.toRat then -1 else if x.toRat = y.toRat then 0 else 1 := by
  obtain ⟨hscale, hx, hy⟩ := upscale_spec x y
  have hlt := toRat_lt_iff_of_scale_eq hscale
  have heq := toRat_eq_iff_of_scale_eq hscale
  rw [hx, hy] at hlt heq
  show cmpInt (upscale x y).1.unscaled (upscale x y).2.unscaled = _
  unfold cmpInt
  by_cases h₁ : x.toRat < y.toRat
  · rw [if_pos h₁, if_pos (hlt.mp h₁)]
  · rw [if_neg h₁, if_neg (mt hlt.mpr h₁)]
    by_cases h₂ : x.toRat = y.toRat
    · rw [if_pos h₂, if_pos (heq.mp h₂)]
    · rw [if_neg h₂, if_neg (mt heq.mpr h₂)]

/-- `Dec.Add` adds values. -/
theorem Dec.add_toRat (x y : Dec) : (x.add y).toRat = x.toRat + y.toRat := by
  obtain ⟨hscale, hx, hy⟩ := upscale_spec x y
  rw [← hx, ← hy]
  show ((((upscale x y).1.unscaled + (upscale x y).2.unscaled : Int) : ℚ)) *
    10 ^ (-(upscale x y).1.scale) = _
  unfold Dec.toRat
  rw [hscale]
  push_cast
  ring

/-- `Dec.Sub` subtracts values. -/
theorem Dec.sub_toRat (x y : Dec) : (x.sub y).toRat = x.toRat - y.toRat := by
  obtain ⟨hscale, hx, hy⟩ := upscale_spec x y
  rw [← hx, ← hy]
  show ((((upscale x y).1.unscaled - (upscale x y).2.unscaled : Int) : ℚ)) *
    10 ^ (-(upscale x y).1.scale) = _
  unfold Dec.toRat
  rw [hscale]
  push_cast
  ring

theorem Dec.neg_toRat (x : Dec) : x.neg.toRat = -x.toRat := by
  simp [Dec.neg, Dec.toRat]

end Inf
end Kubernetes
