import Kubernetes.Resource.Arithmetic

/-!
# `ScaledValue`: a quantity as an `int64` at a given scale

`Quantity.ScaledValue(scale)` is documented as `ceil(q / 10^scale)`.  On the `int64Amount`
form it is `AsScaledInt64`, which rounds away from zero (`negativeScaleInt64`); on the
`inf.Dec` form it is `scaledValue` of `scale_int.go`, whose fast path adds one to Go's
truncating quotient whenever the remainder is non-zero, and whose `big.Int` path adds one
to the Euclidean quotient.  For a negative value with a fraction the three disagree
(`scaledValue_depends_on_representation`).
-/

namespace Kubernetes
namespace Resource

open Go Inf

/-- `int64(math.Pow10(n))` for `n ≥ 0`: exact up to `10^18`.  Beyond, the conversion of an
out-of-range `float64` is implementation-defined; on amd64 it gives `MinInt64`. -/
def pow10ToInt64 (n : Int) : Int :=
  if n ≤ 18 then 10 ^ n.toNat else minInt64
attribute [grind] pow10ToInt64

/-- `scaledValue` (`scale_int.go`): the decimal `unscaled × 10^(-scale)` as an `int64` at
`newScale`, rounded up when the scale drops.  `big.Int.Int64` keeps the low 64 bits, and
`big.Int.DivMod` is the Euclidean division. -/
def scaledValue (unscaled scale newScale : Int) : Int :=
  let dif := scale - newScale
  if dif = 0 then wrap64 unscaled
  else if dif < 0 then wrap64 (wrap64 unscaled * pow10ToInt64 (-dif))
  else if unscaled < maxInt64 ∧ dif < 19 then
    -- the fast path, on `int64` with Go's truncating `/` and `%`
    let divide := pow10ToInt64 dif
    let result := (wrap64 unscaled).tdiv divide
    let mod := (wrap64 unscaled).tmod divide
    if mod ≠ 0 then wrap64 (result + 1) else result
  else
    let divisor : Int := 10 ^ dif.toNat
    let result := unscaled / divisor
    if unscaled % divisor ≠ 0 then wrap64 (wrap64 result + 1) else wrap64 result
attribute [grind] scaledValue

/-- `Quantity.ScaledValue`.  On the `int64Amount` form Go returns the value of
`AsScaledInt64` whether or not it reported overflow; what a failed checked multiplication
leaves there is not kept by the model of `math.go`, and the model returns `none` for it. -/
def Quantity.scaledValue (q : Quantity) (scale : Int) : Option Int :=
  match q.d with
  | none => q.i.asScaledInt64 scale
  | some d => some (Resource.scaledValue d.unscaled d.scale (toInt32 (infScale scale)))
attribute [grind] Quantity.scaledValue

/-- `-1.5` at scale `0`: the `int64Amount` form rounds away from zero to `-2`, the `inf.Dec`
form adds one to the truncated `-1` and gives `0`, and the documented `ceil` is `-1`. -/
theorem scaledValue_depends_on_representation :
    (newScaledQuantity (-15) (-1)).toRat = -3 / 2 ∧
      (newScaledQuantity (-15) (-1)).scaledValue 0 = some (-2) ∧
      (newScaledQuantity (-15) (-1)).toDec.scaledValue 0 = some 0 ∧
      ⌈(newScaledQuantity (-15) (-1)).toRat⌉ = -1 := by
  have hval : (newScaledQuantity (-15) (-1)).toRat = -3 / 2 := by
    norm_num [newScaledQuantity, Quantity.toRat, Int64Amount.toRat]
  refine ⟨hval, by decide, by decide, ?_⟩
  rw [hval]
  norm_num [Int.ceil_eq_iff]

end Resource
end Kubernetes
