import Kubernetes.Go.Strconv

/-!
# `resource/math.go`: checked `int64` arithmetic

The helpers `Quantity` uses to stay on `int64` as long as no overflow happens.  An `int64`
is an `Int` in the `int64` range; a Go operation that may overflow is computed with
`wrap64`, and the overflow tests are the code's own (`c/b == a` after a multiplication).
A helper that returns `(value, ok)` returns `Option`, `none` for `ok == false`, except where
the caller reads the value when `ok` is false too (`negativeScaleInt64`).
-/

namespace Kubernetes
namespace Resource

open Go

/-- `maxInt64Factors`: the most decimal digits an `int64` holds. -/
def maxInt64Factors : Int := 18
attribute [grind] maxInt64Factors

/-- `mostPositive`. -/
def mostPositive : Int := 2 ^ 63 - 1
attribute [grind] mostPositive

/-- `mostNegative`. -/
def mostNegative : Int := -(mostPositive + 1)
attribute [grind] mostNegative

/-- `int64Add`: `a + b`, or `none` on overflow. -/
def int64Add (a b : Int) : Option Int :=
  let c := wrap64 (a + b)
  if 0 < a ∧ 0 < b then
    if c < 0 then none else some c
  else if a < 0 ∧ b < 0 then
    if 0 < c then none
    else if a = mostNegative ∧ b = mostNegative then none
    else some c
  else some c
attribute [grind] int64Add

/-- `int64Multiply`: `a * b`, or `none` on overflow. -/
def int64Multiply (a b : Int) : Option Int :=
  if a = 0 ∨ b = 0 ∨ a = 1 ∨ b = 1 then some (wrap64 (a * b))
  else if a = mostNegative ∨ b = mostNegative then none
  else
    let c := wrap64 (a * b)
    if wrap64 (c.tdiv b) = a then some c else none
attribute [grind] int64Multiply

/-- `int64MultiplyScale`: `a * b` for a positive power of ten `b`, or `none` on overflow. -/
def int64MultiplyScale (a b : Int) : Option Int :=
  if a = 0 ∨ a = 1 then some (wrap64 (a * b))
  else if a = mostNegative ∧ b ≠ 1 then none
  else
    let c := wrap64 (a * b)
    if wrap64 (c.tdiv b) = a then some c else none
attribute [grind] int64MultiplyScale

/-- `int64MultiplyScale10`. -/
def int64MultiplyScale10 (a : Int) : Option Int :=
  int64MultiplyScale a 10
attribute [grind] int64MultiplyScale10

/-- `int64MultiplyScale100`. -/
def int64MultiplyScale100 (a : Int) : Option Int :=
  int64MultiplyScale a 100
attribute [grind] int64MultiplyScale100

/-- `int64MultiplyScale1000`. -/
def int64MultiplyScale1000 (a : Int) : Option Int :=
  int64MultiplyScale a 1000
attribute [grind] int64MultiplyScale1000

/-- The default case of `positiveScaleInt64`: multiply by ten `n` times. -/
def multiplyScale10Times : Nat → Int → Option Int
  | 0, value => some value
  | n + 1, value => (int64MultiplyScale value 10).bind (multiplyScale10Times n)
attribute [grind] multiplyScale10Times

/-- `positiveScaleInt64`: `base * 10^scale`, or `none` on overflow. -/
def positiveScaleInt64 (base scale : Int) : Option Int :=
  if scale = 0 then some base
  else if scale = 1 then int64MultiplyScale10 base
  else if scale = 2 then int64MultiplyScale100 base
  else if scale = 3 then int64MultiplyScale1000 base
  else if scale = 6 then int64MultiplyScale base 1000000
  else if scale = 9 then int64MultiplyScale base 1000000000
  else multiplyScale10Times scale.toNat base
attribute [grind] positiveScaleInt64

/-- The loop of `negativeScaleInt64`: divide by ten `n` more times, remembering whether a
non-zero digit was dropped; a value that reaches zero stops the loop. -/
def negativeScaleLoop (base : Int) : Nat → Int → Bool → Int × Bool
  | 0, value, fraction =>
      if fraction then (if 0 < base then value + 1 else value - 1, false) else (value, true)
  | n + 1, value, fraction =>
      let fraction := fraction || value.tmod 10 ≠ 0
      let value := value.tdiv 10
      if value = 0 then
        if fraction then (if 0 < base then 1 else -1, false) else (0, true)
      else negativeScaleLoop base n value fraction
attribute [grind] negativeScaleLoop

/-- `negativeScaleInt64`: `base / 10^scale` rounded away from zero, and whether that was
exact. -/
def negativeScaleInt64 (base scale : Int) : Int × Bool :=
  if scale = 0 then (base, true) else negativeScaleLoop base scale.toNat base false
attribute [grind] negativeScaleInt64

/-- `pow10Int64`: `10^b` for `0 ≤ b ≤ 18`, and `0` otherwise. -/
def pow10Int64 (b : Int) : Int :=
  if 0 ≤ b ∧ b ≤ 18 then 10 ^ b.toNat else 0
attribute [grind] pow10Int64

/-- The panic of Go's integer `/` and `%` by zero. -/
def integerDivideByZero : String :=
  "runtime error: integer divide by zero"
attribute [grind] integerDivideByZero

/-- `divideByScaleInt64`: quotient and remainder of `base / 10^scale`, and whether the
divisor fits an `int64`.  A negative `scale` (the doc calls it undefined) reaches
`pow10Int64`, whose divisor `0` makes the division panic. -/
def divideByScaleInt64 (base scale : Int) : Except String (Int × Int × Bool) :=
  if scale = 0 then .ok (base, 0, true)
  else if 18 ≤ scale then .ok (0, base, false)
  else
    let divisor := pow10Int64 scale
    if divisor = 0 then .error integerDivideByZero
    else .ok (base.tdiv divisor, base.tmod divisor, true)
attribute [grind] divideByScaleInt64

/-- The loop of `removeInt64Factors`, with the iteration count as fuel. -/
def removeFactorsLoop (base : Int) : Nat → Int → Int → Int × Int
  | 0, result, times => (result, times)
  | n + 1, result, times =>
      if base ≤ result ∧ result.tmod base = 0 then removeFactorsLoop base n (result.tdiv base) (times + 1)
      else (result, times)
attribute [grind] removeFactorsLoop

/-- `removeInt64Factors`: strip the factors `base` from `value`, counting them.  Each
iteration divides the magnitude by `base ≥ 2`, so `value.natAbs` iterations are enough. -/
def removeInt64Factors (value base : Int) : Int × Int :=
  let negative := value < 0
  let result := if negative then wrap64 (-value) else value
  let (result, times) := removeFactorsLoop base result.natAbs result 0
  (if negative then wrap64 (-result) else result, times)
attribute [grind] removeInt64Factors

/-- `removeBigIntFactors`: the same on an unbounded integer (`big.Int.DivMod` is the
Euclidean division), stopping at zero. -/
def removeBigIntFactorsLoop (factor : Int) : Nat → Int → Int → Int × Int
  | 0, d, times => (d, times)
  | n + 1, d, times =>
      if d = 0 then (d, times)
      else if d % factor ≠ 0 then (d, times)
      else removeBigIntFactorsLoop factor n (d / factor) (times + 1)
attribute [grind] removeBigIntFactorsLoop

/-- `removeBigIntFactors`. -/
def removeBigIntFactors (d factor : Int) : Int × Int :=
  removeBigIntFactorsLoop factor d.natAbs d 0
attribute [grind] removeBigIntFactors

end Resource
end Kubernetes
