import Kubernetes.Resource.Math
import Kubernetes.Resource.Dec

/-!
# `resource/amount.go`: the two representations of an amount

`int64Amount` is `value × 10^scale` with an `int64` value; `infDecAmount` wraps an
`inf.Dec`.  Both render themselves canonically: `AsCanonicalBytes` gives the digits of a
mantissa and a base-10 exponent that is a multiple of three (`1.1e5` is `"110"`, `3`), and
`AsCanonicalBase1024Bytes` a mantissa and a base-1024 exponent.  The `out` buffer these
methods append to is always empty where `Quantity` calls them, so the model returns the
digits alone.  `Scale` is an `int32`: a scale is an `Int`, and the difference of two scales
that a method computes wraps as Go's `int32` subtraction does (`Go.toInt32`).  A gap of
`2^31` or more therefore reaches the helpers as a negative scale, which `Cmp` turns into a
division by zero.
-/

namespace Kubernetes
namespace Resource

open Go Inf

/-- `int64Amount`: `value × 10^scale`. -/
structure Int64Amount where
  value : Int
  scale : Int
  deriving DecidableEq, Repr

/-- `Scale.infScale`: `inf.Scale` counts the other way. -/
def infScale (s : Int) : Int :=
  -s
attribute [grind] infScale

/-- `int64Amount.Sign`. -/
def Int64Amount.sign (a : Int64Amount) : Int :=
  if a.value = 0 then 0 else if 0 < a.value then 1 else -1
attribute [grind] Int64Amount.sign

/-- `int64Amount.AsDec`. -/
def Int64Amount.asDec (a : Int64Amount) : Dec :=
  ⟨a.value, infScale a.scale⟩
attribute [grind] Int64Amount.asDec

/-- `int64Amount.AsScaledInt64`: the value at `scale`, rounded away from zero, or `none` on
overflow. -/
def Int64Amount.asScaledInt64 (a : Int64Amount) (scale : Int) : Option Int :=
  if a.scale < scale then some (negativeScaleInt64 a.value (toInt32 (scale - a.scale))).1
  else positiveScaleInt64 a.value (toInt32 (a.scale - scale))
attribute [grind] Int64Amount.asScaledInt64

/-- `int64Amount.AsScale`: at least `scale`, rounding away from zero, and whether that was
exact. -/
def Int64Amount.asScale (a : Int64Amount) (scale : Int) : Int64Amount × Bool :=
  if scale ≤ a.scale then (a, true)
  else
    let (result, exact) := negativeScaleInt64 a.value (toInt32 (scale - a.scale))
    (⟨result, scale⟩, exact)
attribute [grind] Int64Amount.asScale

/-- The last step of `int64Amount.Cmp`: compare two values at one scale. -/
def cmpValues (a b : Int) : Int :=
  if a = b then 0 else if a < b then -1 else 1
attribute [grind] cmpValues

/-- `int64Amount.Cmp`: bring the operand with the smaller scale to the larger one by
division, falling back to `inf.Dec` when the divisor does not fit. -/
def Int64Amount.cmp (a b : Int64Amount) : Except String Int :=
  if a.scale = b.scale then .ok (cmpValues a.value b.value)
  else if b.scale < a.scale then do
    let (result, remainder, exact) ← divideByScaleInt64 b.value (toInt32 (a.scale - b.scale))
    if !exact then return a.asDec.cmp b.asDec
    else if result = a.value then
      return if remainder = 0 then 0 else if 0 < remainder then -1 else 1
    else return cmpValues a.value result
  else do
    let (result, remainder, exact) ← divideByScaleInt64 a.value (toInt32 (b.scale - a.scale))
    if !exact then return a.asDec.cmp b.asDec
    else if result = b.value then
      return if remainder = 0 then 0 else if 0 < remainder then 1 else -1
    else return cmpValues result b.value
attribute [grind] Int64Amount.cmp

/-- `int64Amount.Add`: the sum at the smaller scale, or `none` (and `a` unchanged) on
overflow. -/
def Int64Amount.add (a b : Int64Amount) : Option Int64Amount :=
  if b.value = 0 then some a
  else if a.value = 0 then some b
  else if a.scale = b.scale then (int64Add a.value b.value).map fun c => ⟨c, a.scale⟩
  else if b.scale < a.scale then
    (positiveScaleInt64 a.value (toInt32 (a.scale - b.scale))).bind fun c =>
      (int64Add c b.value).map fun c => ⟨c, b.scale⟩
  else
    (positiveScaleInt64 b.value (toInt32 (b.scale - a.scale))).bind fun c =>
      (int64Add a.value c).map fun c => ⟨c, a.scale⟩
attribute [grind] Int64Amount.add

/-- `int64Amount.Sub`. -/
def Int64Amount.sub (a b : Int64Amount) : Option Int64Amount :=
  a.add ⟨wrap64 (-b.value), b.scale⟩
attribute [grind] Int64Amount.sub

/-- The loop of `infDecAmount.AsCanonicalBytes` that lowers the exponent to a multiple of
three; two iterations always reach one. -/
def alignExponent : Nat → Int → Int → Int × Int
  | 0, amount, exponent => (amount, exponent)
  | n + 1, amount, exponent =>
      if exponent.tmod 3 ≠ 0 then alignExponent n (amount * 10) (exponent - 1) else (amount, exponent)
attribute [grind] alignExponent

/-- `infDecAmount.AsCanonicalBytes`. -/
def decAsCanonicalBytes (d : Dec) : String × Int :=
  let (amount, times) := removeBigIntFactors d.unscaled 10
  let (amount, exponent) := alignExponent 2 amount (-d.scale + times)
  (toString amount, exponent)
attribute [grind] decAsCanonicalBytes

/-- `infDecAmount.AsCanonicalBase1024Bytes`. -/
def decAsCanonicalBase1024Bytes (d : Dec) : String × Int :=
  let (amount, exponent) := removeBigIntFactors (d.roundUp 0).unscaled 1024
  (toString amount, exponent)
attribute [grind] decAsCanonicalBase1024Bytes

/-- `infDecAmount.AsScale`: rounded away from zero to `scale`, and whether that was exact. -/
def decAsScale (d : Dec) (scale : Int) : Dec × Bool :=
  let tmp := d.roundUp (infScale scale)
  (tmp, tmp.cmp d = 0)
attribute [grind] decAsScale

/-- `int64Amount.AsCanonicalBytes`: strip the factors of ten, then lower the exponent to a
multiple of three, falling back to `inf.Dec` when the mantissa would overflow. -/
def Int64Amount.asCanonicalBytes (a : Int64Amount) : String × Int :=
  let (amount, times) := removeInt64Factors a.value 10
  let exponent := toInt32 (a.scale + times)
  let r := exponent.tmod 3
  if r = 1 ∨ r = -2 then
    match int64MultiplyScale10 amount with
    | some amount => (formatInt amount, exponent - 1)
    | none => decAsCanonicalBytes a.asDec
  else if r = 2 ∨ r = -1 then
    match int64MultiplyScale100 amount with
    | some amount => (formatInt amount, exponent - 2)
    | none => decAsCanonicalBytes a.asDec
  else (formatInt amount, exponent)
attribute [grind] Int64Amount.asCanonicalBytes

/-- `int64Amount.AsCanonicalBase1024Bytes`. -/
def Int64Amount.asCanonicalBase1024Bytes (a : Int64Amount) : String × Int :=
  match a.asScaledInt64 0 with
  | none => decAsCanonicalBase1024Bytes a.asDec
  | some value =>
      let (amount, exponent) := removeInt64Factors value 1024
      (formatInt amount, exponent)
attribute [grind] Int64Amount.asCanonicalBase1024Bytes

/-! ## Values -/

/-- The value of an `int64Amount`. -/
def Int64Amount.toRat (a : Int64Amount) : ℚ :=
  a.value * (10 : ℚ) ^ a.scale
attribute [grind] Int64Amount.toRat

theorem Int64Amount.asDec_toRat (a : Int64Amount) : a.asDec.toRat = a.toRat := by
  simp [Int64Amount.asDec, Dec.toRat, Int64Amount.toRat, infScale]

end Resource
end Kubernetes
