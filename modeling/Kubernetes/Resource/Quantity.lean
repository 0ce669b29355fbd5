import Kubernetes.Resource.Amount
import Kubernetes.Resource.Suffix
import Kubernetes.Go.Strings

/-!
# `resource/quantity.go`: parsing and printing quantities

`ParseQuantity` scans a string into sign, number and suffix (`parseQuantityString`),
interprets the suffix, and builds either an `int64Amount` (the fast path, taken when the
digits fit and the scale is at least `Nano`) or an `inf.Dec` (the slow path, rounded up to
`Nano` and, for `BinarySI`, capped at `2^63 - 1`).  `String` prints the cached text `s` if
the parser kept the input as canonical, and otherwise the canonical form
(`CanonicalizeBytes`): mantissa digits followed by the suffix `constructBytes` finds for
the exponent, or no suffix at all when it finds none.

The pointer receivers of Go mutate the quantity only to cache (`s`) or to switch it to the
`inf.Dec` form, neither of which changes the value, so the model's methods are pure.  A
`Format` other than the three constants (which a caller may set, and which
`CanonicalizeBytes` prints as `DecimalExponent`) does not arise from parsing or
arithmetic and is not modelled.
-/

namespace Kubernetes
namespace Resource

open Go Inf

/-- `Quantity`: the `int64Amount` form `i` unless `d` holds an `inf.Dec`. -/
structure Quantity where
  i : Int64Amount
  d : Option Dec
  s : String
  format : Format
  deriving DecidableEq, Repr

/-- The value of a quantity. -/
def Quantity.toRat (q : Quantity) : ℚ :=
  match q.d with
  | some d => d.toRat
  | none => q.i.toRat
attribute [grind] Quantity.toRat

/-- The errors of `ParseQuantity`. -/
inductive QuantityError
  | formatWrong
  | numeric
  | suffix
  deriving DecidableEq, Repr

/-- The texts of `ErrFormatWrong`, `ErrNumeric` and `ErrSuffix`. -/
def QuantityError.message : QuantityError → String
  | .formatWrong => "quantities must match the regular expression " ++
      "'^([+-]?[0-9.]+)([eEinumkKMGTP]*[-+]?[0-9]*)$'"
  | .numeric => "unable to parse numeric part of quantity"
  | .suffix => "unable to parse quantity's suffix"

/-! ## `parseQuantityString` -/

/-- What `parseQuantityString` returns besides the error. -/
structure QuantityParts where
  positive : Bool
  value : String
  num : String
  denom : String
  suffix : String
  deriving DecidableEq, Repr

/-- The characters `parseQuantityString` takes as the letters of a suffix. -/
def suffixLetters : List Char :=
  "eEinumkKMGTP".toList

/-- The last two loops of `parseQuantityString`: suffix letters, then an optional sign and
digits up to the end; any other character is `ErrFormatWrong`. -/
def scanSuffix (rest : List Char) : Option String :=
  let afterLetters := rest.dropWhile (· ∈ suffixLetters)
  let afterSign :=
    match afterLetters with
    | '-' :: r => r
    | '+' :: r => r
    | r => r
  if afterSign.all Char.isDigit then some (String.ofList rest) else none
attribute [grind] scanSuffix

/-- The leading sign of `parseQuantityString`: whether the number is positive, and the rest. -/
def splitSign : List Char → Bool × List Char
  | '-' :: rest => (false, rest)
  | '+' :: rest => (true, rest)
  | cs => (true, cs)
attribute [grind] splitSign

/-- `parseQuantityString`: sign, leading zeros, numerator, optional denominator, suffix.
`value` is the input up to the suffix (`"0"` when only a sign and zeros were read). -/
def parseQuantityString (str : String) : Except QuantityError QuantityParts :=
  let cs := str.toList
  let positive := (splitSign cs).1
  let afterSign := (splitSign cs).2
  let afterZeros := afterSign.dropWhile (· = '0')
  if afterZeros = [] then .ok ⟨positive, "0", "0", "", ""⟩
  else
    let numDigits := afterZeros.takeWhile Char.isDigit
    let afterNum := afterZeros.dropWhile Char.isDigit
    if afterNum = [] then .ok ⟨positive, str, String.ofList numDigits, "", ""⟩
    else
      let num := if numDigits = [] then "0" else String.ofList numDigits
      let valueBefore (rest : List Char) : String := String.ofList (cs.take (cs.length - rest.length))
      match afterNum with
      | '.' :: afterDot =>
          let denom := afterDot.takeWhile Char.isDigit
          let afterDenom := afterDot.dropWhile Char.isDigit
          if afterDenom = [] then .ok ⟨positive, str, num, String.ofList denom, ""⟩
          else
            match scanSuffix afterDenom with
            | some suffix => .ok ⟨positive, valueBefore afterDenom, num, String.ofList denom, suffix⟩
            | none => .error .formatWrong
      | _ =>
          match scanSuffix afterNum with
          | some suffix => .ok ⟨positive, valueBefore afterNum, num, "", suffix⟩
          | none => .error .formatWrong
attribute [grind] parseQuantityString

theorem splitSign_suffix (cs : List Char) : (splitSign cs).2 <:+ cs := by
  unfold splitSign
  split <;> simp

theorem scanSuffix_eq_some {rest : List Char} {suffix : String} (h : scanSuffix rest = some suffix) :
    suffix = String.ofList rest := by
  unfold scanSuffix at h
  dsimp only at h
  split_ifs at h
  exact (Option.some.inj h).symm

/-- The value before a suffix of the input, followed by the suffix, is the input. -/
theorem valueBefore_append {str : String} {rest : List Char} (h : rest <:+ str.toList) :
    String.ofList (str.toList.take (str.toList.length - rest.length)) ++ String.ofList rest = str := by
  rw [← String.ofList_append, List.suffix_iff_eq_append.mp h, String.ofList_toList]

/-- The scanner cuts its input in two: `value` followed by `suffix` is the input, unless
only a sign and zeros were read (then the value is `"0"`). -/
theorem parseQuantityString_value_append_suffix {str : String} {p : QuantityParts}
    (h : parseQuantityString str = .ok p) :
    p.value ++ p.suffix = str ∨ (p.value = "0" ∧ p.suffix = "") := by
  unfold parseQuantityString at h
  dsimp only at h
  -- every remainder the loops leave is a suffix of the input
  have hnum : ((splitSign str.toList).2.dropWhile (· = '0')).dropWhile Char.isDigit <:+ str.toList :=
    (List.dropWhile_suffix _).trans ((List.dropWhile_suffix _).trans (splitSign_suffix _))
  by_cases hzeros : (splitSign str.toList).2.dropWhile (· = '0') = []
  · rw [if_pos hzeros] at h
    cases h
    exact Or.inr ⟨rfl, rfl⟩
  rw [if_neg hzeros] at h
  by_cases hend : ((splitSign str.toList).2.dropWhile (· = '0')).dropWhile Char.isDigit = []
  · rw [if_pos hend] at h
    cases h
    simp
  rw [if_neg hend] at h
  split at h
  · rename_i afterDot hdot
    have hdenom : afterDot.dropWhile Char.isDigit <:+ str.toList :=
      (List.dropWhile_suffix _).trans ((List.suffix_cons _ _).trans (hdot ▸ hnum))
    by_cases hdend : afterDot.dropWhile Char.isDigit = []
    · rw [if_pos hdend] at h
      cases h
      simp
    rw [if_neg hdend] at h
    split at h
    · rename_i suffix hs
      cases h
      exact Or.inl (scanSuffix_eq_some hs ▸ valueBefore_append hdenom)
    · cases h
  · split at h
    · rename_i suffix hs
      cases h
      exact Or.inl (scanSuffix_eq_some hs ▸ valueBefore_append hnum)
    · cases h

/-! ## `ParseQuantity` -/

/-- `maxAllowed`: the cap of `BinarySI` quantities. -/
def maxAllowed : Dec :=
  newDec maxInt64 0
attribute [grind] maxAllowed

/-- `decOne`. -/
def decOne : Dec :=
  newDec 1 0
attribute [grind] decOne

/-- `decZero`. -/
def decZero : Dec :=
  newDec 0 0
attribute [grind] decZero

/-- `Nano`. -/
def nano : Int := -9
attribute [grind] nano

/-- The `inf.Dec` path of `ParseQuantity`: the value string is read exactly, the suffix
applied, non-zero values rounded up to `Nano`, and `BinarySI` capped. -/
def parseQuantitySlow (value : String) (base exponent : Int) (format : Format) :
    Except QuantityError Quantity :=
  match Dec.setString value with
  | none => .error .numeric
  | some amount =>
      let amount :=
        -- `amount.Scale() + Scale(exponent).infScale()`, in `int32`
        if base = 10 then { amount with scale := toInt32 (amount.scale + toInt32 (infScale exponent)) }
        else if base = 2 then { amount with unscaled := amount.unscaled * 2 ^ exponent.toNat }
        else amount
      let sign := amount.sign
      let amount := if sign = -1 then amount.neg else amount
      let fits := minInt64 ≤ amount.unscaled ∧ amount.unscaled ≤ maxInt64
      let amount := if amount.unscaled ≠ 0 ∨ ¬fits then amount.roundUp (infScale nano) else amount
      let amount := if format = .binarySI ∧ 0 < amount.cmp maxAllowed then maxAllowed else amount
      let format :=
        if format = .binarySI ∧ amount.cmp decOne < 0 ∧ 0 < amount.cmp decZero then .decimalSI
        else format
      let amount := if sign = -1 then amount.neg else amount
      .ok ⟨⟨0, 0⟩, some amount, "", format⟩
attribute [grind] parseQuantitySlow

/-- `ParseQuantity`. -/
def parseQuantity (str : String) : Except QuantityError Quantity := do
  if str = "" then throw .formatWrong
  if str = "0" then return ⟨⟨0, 0⟩, none, str, .decimalSI⟩
  let p ← parseQuantityString str
  let some (base, exponent, format) := interpret p.suffix | throw .suffix
  let numLen : Int := p.num.length
  let denomLen : Int := p.denom.length
  let (precision, scale, mantissa) : Int × Int × Int :=
    match format with
    | .decimalExponent | .decimalSI => (maxInt64Factors - (numLen + denomLen), exponent, 1)
    | .binarySI =>
        -- `int32(float32(exponent)*3/10)` is exact for the exponents of the binary suffixes
        if 0 ≤ exponent ∧ denomLen = 0 then (15 - numLen - exponent * 3 / 10 - 1, 0, wrap64 (2 ^ exponent.toNat))
        else (-1, 0, 1)
  let scale := scale - denomLen
  if 0 ≤ precision ∧ nano ≤ scale then
    let shifted := p.num ++ p.denom
    let some value := parseInt shifted | throw .numeric
    match int64Multiply value mantissa with
    | some result =>
        let result := if p.positive then result else wrap64 (-result)
        -- the input is kept as the printed form when it is already canonical
        let canonical : Bool :=
          match format with
          | .binarySI => exponent.tmod 10 = 0 ∧ value % 8 ≠ 0
          | _ => scale.tmod 3 = 0 ∧ !hasSuffix shifted "000" ∧ shifted.toList.head? ≠ some '0'
        return ⟨⟨result, scale⟩, none, if canonical then str else "", format⟩
    | none => parseQuantitySlow p.value base exponent format
  else parseQuantitySlow p.value base exponent format
attribute [grind] parseQuantity

/-- An exponent beyond the `int32` range is cut to its low 32 bits: `1e4294967296` is `1`. -/
theorem parseQuantity_exponent_truncated :
    ∃ q, parseQuantity "1e4294967296" = .ok q ∧ q.toRat = 1 ∧ q.toRat < 10 ^ (4294967296 : ℤ) := by
  refine ⟨⟨⟨1, 0⟩, none, "1e4294967296", .decimalExponent⟩, by decide, ?_, ?_⟩
  · norm_num [Quantity.toRat, Int64Amount.toRat]
  · show ((1 : ℤ) : ℚ) * 10 ^ (0 : ℤ) < _
    rw [Int.cast_one, zpow_zero, one_mul]
    exact one_lt_zpow₀ (by norm_num : (1 : ℚ) < 10) (by norm_num : (0 : ℤ) < 4294967296)

/-! ## Methods -/

/-- `NewQuantity`. -/
def newQuantity (value : Int) (format : Format) : Quantity :=
  ⟨⟨value, 0⟩, none, "", format⟩
attribute [grind] newQuantity

/-- `NewScaledQuantity`. -/
def newScaledQuantity (value scale : Int) : Quantity :=
  ⟨⟨value, scale⟩, none, "", .decimalSI⟩
attribute [grind] newScaledQuantity

/-- `Quantity.IsZero`. -/
def Quantity.isZero (q : Quantity) : Bool :=
  match q.d with
  | some d => d.sign = 0
  | none => q.i.value = 0
attribute [grind] Quantity.isZero

/-- `Quantity.Sign`. -/
def Quantity.sign (q : Quantity) : Int :=
  match q.d with
  | some d => d.sign
  | none => q.i.sign
attribute [grind] Quantity.sign

/-- `Quantity.AsDec`. -/
def Quantity.asDec (q : Quantity) : Dec :=
  match q.d with
  | some d => d
  | none => q.i.asDec
attribute [grind] Quantity.asDec

/-- `Quantity.ToDec`. -/
def Quantity.toDec (q : Quantity) : Quantity :=
  match q.d with
  | some _ => q
  | none => { q with i := ⟨0, 0⟩, d := some q.i.asDec }
attribute [grind] Quantity.toDec

/-- `Quantity.Cmp`. -/
def Quantity.cmp (q y : Quantity) : Except String Int :=
  match q.d, y.d with
  | none, none => q.i.cmp y.i
  | _, _ => .ok (q.asDec.cmp y.asDec)
attribute [grind] Quantity.cmp

/-- `Quantity.CmpInt64`. -/
def Quantity.cmpInt64 (q : Quantity) (y : Int) : Except String Int :=
  match q.d with
  | some d => .ok (d.cmp (newDec y 0))
  | none => q.i.cmp ⟨y, 0⟩
attribute [grind] Quantity.cmpInt64

/-- `Quantity.Neg`. -/
def Quantity.neg (q : Quantity) : Quantity :=
  match q.d with
  | none => { q with s := "", i := { q.i with value := wrap64 (-q.i.value) } }
  | some d => { q with s := "", d := some d.neg }
attribute [grind] Quantity.neg

/-- `Quantity.Add`: on `int64Amount` while the sum fits, otherwise on `inf.Dec`; a zero
receiver takes the format of `y`. -/
def Quantity.add (q y : Quantity) : Quantity :=
  match q.d, y.d with
  | none, none =>
      let q := { q with s := "", format := if q.i.value = 0 then y.format else q.format }
      match q.i.add y.i with
      | some i => { q with i }
      | none => let q := q.toDec; { q with d := some (q.asDec.add y.asDec) }
  | _, _ =>
      let q := { q with s := "", format := if q.isZero then y.format else q.format }
      let q := q.toDec
      { q with d := some (q.asDec.add y.asDec) }
attribute [grind] Quantity.add

/-- `Quantity.Sub`. -/
def Quantity.sub (q y : Quantity) : Quantity :=
  let q := { q with s := "", format := if q.isZero then y.format else q.format }
  let viaDec := let q := q.toDec; { q with d := some (q.asDec.sub y.asDec) }
  match q.d, y.d with
  | none, none =>
      match q.i.sub y.i with
      | some i => { q with i }
      | none => viaDec
  | _, _ => viaDec
attribute [grind] Quantity.sub

/-- What `Quantity.AsScale` returns: one of the two amounts. -/
inductive CanonicalValue
  | int64 (a : Int64Amount)
  | dec (d : Dec)

/-- `CanonicalValue.AsCanonicalBase1024Bytes`. -/
def CanonicalValue.asCanonicalBase1024Bytes : CanonicalValue → String × Int
  | .int64 a => a.asCanonicalBase1024Bytes
  | .dec d => decAsCanonicalBase1024Bytes d
attribute [grind] CanonicalValue.asCanonicalBase1024Bytes

/-- `Quantity.AsScale`. -/
def Quantity.asScale (q : Quantity) (scale : Int) : CanonicalValue × Bool :=
  match q.d with
  | some d => let (r, exact) := decAsScale d scale; (.dec r, exact)
  | none => let (r, exact) := q.i.asScale scale; (.int64 r, exact)
attribute [grind] Quantity.asScale

/-- `Quantity.AsCanonicalBytes`. -/
def Quantity.asCanonicalBytes (q : Quantity) : String × Int :=
  match q.d with
  | some d => decAsCanonicalBytes d
  | none => q.i.asCanonicalBytes
attribute [grind] Quantity.asCanonicalBytes

/-- `Quantity.CanonicalizeBytes`: the mantissa and the suffix.  `BinarySI` is printed in
base 1024 only when the value is at least `1024` in magnitude and an integer.  The
comparisons with `±1024` are those of `CmpInt64`, which can panic. -/
def Quantity.canonicalizeBytes (q : Quantity) : Except String (String × String) :=
  if q.isZero then .ok ("0", "")
  else
    let decimal (format : Format) : String × String :=
      let (number, exponent) := q.asCanonicalBytes
      (number, (constructBytes 10 exponent format).getD "")
    let base1024 : String × String :=
      let (rounded, exact) := q.asScale 0
      if exact then
        let (number, exponent) := rounded.asCanonicalBase1024Bytes
        (number, (constructBytes 2 (exponent * 10) .binarySI).getD "")
      else decimal .decimalSI
    match q.format with
    | .decimalExponent => .ok (decimal .decimalExponent)
    | .decimalSI => .ok (decimal .decimalSI)
    | .binarySI => do
        -- `q.CmpInt64(-1024) > 0 && q.CmpInt64(1024) < 0`, short-circuiting
        if 0 < (← q.cmpInt64 (-1024)) then
          if (← q.cmpInt64 1024) < 0 then return decimal .decimalSI
        return base1024
attribute [grind] Quantity.canonicalizeBytes

/-- `Quantity.String`: the cached text, else the canonical form. -/
def Quantity.string (q : Quantity) : Except String String :=
  if q.s = "" then do
    let (number, suffix) ← q.canonicalizeBytes
    return number ++ suffix
  else .ok q.s
attribute [grind] Quantity.string

/-- `1000E` is `10^21`, whose canonical exponent has no decimal suffix: it prints as `1`. -/
theorem parseQuantity_string_1000E :
    ∃ q q', parseQuantity "1000E" = .ok q ∧ q.string = .ok "1" ∧ parseQuantity "1" = .ok q' ∧
      q'.cmp q = .ok (-1) ∧ q.toRat = 10 ^ 21 ∧ q'.toRat = 1 := by
  refine ⟨⟨⟨1000, 18⟩, none, "", .decimalSI⟩, ⟨⟨1, 0⟩, none, "1", .decimalSI⟩,
    by decide, by decide, by decide, by decide, ?_, ?_⟩ <;>
    norm_num [Quantity.toRat, Int64Amount.toRat]

/-- The cache test of `ParseQuantity` reads the digits only: a `+` sign, leading zeros and a
fraction whose digits make up the scale all keep an input that is not the canonical form,
and `String` then returns that input rather than what `CanonicalizeBytes` prints. -/
theorem parseQuantity_caches_noncanonical :
    ∃ q₁ q₂ q₃, parseQuantity "+1k" = .ok q₁ ∧ q₁.string = .ok "+1k" ∧
      { q₁ with s := "" }.string = .ok "1k" ∧
      parseQuantity "0100k" = .ok q₂ ∧ q₂.string = .ok "0100k" ∧
      { q₂ with s := "" }.string = .ok "100k" ∧
      parseQuantity "100.035k" = .ok q₃ ∧ q₃.string = .ok "100.035k" ∧
      { q₃ with s := "" }.string = .ok "100035" :=
  ⟨⟨⟨1, 3⟩, none, "+1k", .decimalSI⟩, ⟨⟨100, 3⟩, none, "0100k", .decimalSI⟩,
    ⟨⟨100035, 0⟩, none, "100.035k", .decimalSI⟩,
    by decide, by decide, by decide, by decide, by decide, by decide, by decide, by decide,
    by decide⟩

end Resource
end Kubernetes
