import Mathlib

/-!
# Go integers and `strconv`

Go's fixed-width integers are modelled as `Int` with the wrap-around made explicit:
`int64` arithmetic is `wrap64`, and the conversion `int32(x)` keeps the low 32 bits,
`toInt32`.  `strconv.ParseInt(s, 10, 64)` is `parseInt` (an optional sign and at least one
decimal digit, in range), and `strconv.FormatInt(n, 10)` / `AppendInt` is `formatInt`.
-/

namespace Kubernetes
namespace Go

/-- The largest `int64`. -/
def maxInt64 : Int := 2 ^ 63 - 1
attribute [grind] maxInt64

/-- The smallest `int64`. -/
def minInt64 : Int := -2 ^ 63
attribute [grind] minInt64

/-- An `int64` result: the low 64 bits, read as a signed number. -/
def wrap64 (n : Int) : Int :=
  n.bmod (2 ^ 64)
attribute [grind] wrap64

/-- The conversion `int32(n)`: the low 32 bits, read as a signed number. -/
def toInt32 (n : Int) : Int :=
  n.bmod (2 ^ 32)
attribute [grind] toInt32

/-- The value of a string of decimal digits. -/
def decimalValue (ds : List Char) : Nat :=
  ds.foldl (fun acc c => 10 * acc + (c.toNat - '0'.toNat)) 0
attribute [grind] decimalValue

/-- `strconv.ParseInt(s, 10, 64)`: an optional sign, then one or more decimal digits, with
the value in the `int64` range. -/
def parseInt (s : String) : Option Int :=
  let (negative, digits) :=
    match s.toList with
    | '-' :: ds => (true, ds)
    | '+' :: ds => (false, ds)
    | ds => (false, ds)
  if digits = [] ∨ ¬digits.all Char.isDigit then none
  else
    let v : Int := if negative then -(decimalValue digits : Int) else decimalValue digits
    if minInt64 ≤ v ∧ v ≤ maxInt64 then some v else none
attribute [grind] parseInt

/-- `strconv.ParseInt(s, 10, 32)`: as `parseInt`, with the value in the `int32` range. -/
def parseInt32 (s : String) : Option Int :=
  (parseInt s).filter fun v => decide (-2 ^ 31 ≤ v ∧ v < 2 ^ 31)
attribute [grind] parseInt32

/-- `strconv.FormatInt(n, 10)`, also what `strconv.AppendInt` appends. -/
def formatInt (n : Int) : String :=
  toString n
attribute [grind] formatInt

theorem decimalValue_append_digit (ds : List Char) (c : Char) :
    decimalValue (ds ++ [c]) = 10 * decimalValue ds + (c.toNat - '0'.toNat) := by
  simp [decimalValue, List.foldl_append]

/-- The digits `Nat.toDigits` writes read back as the number. -/
theorem decimalValue_toDigits (n : Nat) : decimalValue (Nat.toDigits 10 n) = n := by
  induction n using Nat.strongRecOn with
  | ind n ih =>
    rw [Nat.toDigits_eq_if (by decide)]
    split
    · next hn => simp [decimalValue, Nat.toNat_digitChar_sub_48_of_lt_ten hn]
    · next hn =>
        have hlt : n / 10 < n := Nat.div_lt_self (by omega) (by decide)
        rw [decimalValue_append_digit, ih _ hlt, show '0'.toNat = 48 from rfl,
          Nat.toNat_digitChar_sub_48_of_lt_ten (Nat.mod_lt _ (by decide))]
        omega

theorem toList_formatInt_ofNat (n : Nat) : (formatInt n).toList = Nat.toDigits 10 n := by
  simp [formatInt, Int.repr]

theorem toList_formatInt_ne_nil (n : Int) : (formatInt n).toList ≠ [] := by
  cases n with
  | ofNat n => simp [formatInt, Int.repr]
  | negSucc n => simp [formatInt, Int.repr]

/-- A number that is not negative prints as decimal digits only. -/
theorem isDigit_of_mem_formatInt {n : Int} (hn : 0 ≤ n) {c : Char}
    (hc : c ∈ (formatInt n).toList) : c.isDigit = true := by
  lift n to Nat using hn
  rw [toList_formatInt_ofNat] at hc
  exact Nat.isDigit_of_mem_toDigits (by decide) (by decide) hc

theorem not_mem_formatInt {n : Int} (hn : 0 ≤ n) {c : Char} (hc : c.isDigit = false) :
    c ∉ (formatInt n).toList := fun h => by
  rw [isDigit_of_mem_formatInt hn h] at hc
  exact Bool.noConfusion hc

/-- `strconv.ParseInt` reads back what `strconv.FormatInt` prints, for an `int64` that is not
negative. -/
theorem parseInt_formatInt {n : Int} (hn : 0 ≤ n) (hmax : n ≤ maxInt64) :
    parseInt (formatInt n) = some n := by
  lift n to Nat using hn
  have hdigits : ∀ c ∈ Nat.toDigits 10 n, c.isDigit = true :=
    fun c hc => Nat.isDigit_of_mem_toDigits (by decide) (by decide) hc
  unfold parseInt
  rw [toList_formatInt_ofNat]
  obtain ⟨c, rest, hcons⟩ := List.exists_cons_of_ne_nil (Nat.toDigits_ne_nil (n := n) (b := 10))
  have hc := hdigits c (by simp [hcons])
  -- the first digit is no sign
  have hminus : c ≠ '-' := by rintro rfl; exact absurd hc (by decide)
  have hplus : c ≠ '+' := by rintro rfl; exact absurd hc (by decide)
  have hall : (Nat.toDigits 10 n).all Char.isDigit = true := List.all_eq_true.mpr hdigits
  have hvalue : minInt64 ≤ (n : Int) ∧ (n : Int) ≤ maxInt64 := ⟨by unfold minInt64; omega, hmax⟩
  rw [hcons] at hall ⊢
  split
  next negative digits hsplit =>
    have hsign : negative = false ∧ digits = c :: rest := by
      split at hsplit
      all_goals simp_all
    obtain ⟨rfl, rfl⟩ := hsign
    rw [← hcons] at hall ⊢
    simp [hall, decimalValue_toDigits, hvalue]

/-- A text with no minus sign parses to a number that is not negative. -/
theorem parseInt_nonneg {s : String} {v : Int} (hs : '-' ∉ s.toList)
    (h : parseInt s = some v) : 0 ≤ v := by
  unfold parseInt at h
  split at h
  next negative digits hsplit =>
    -- with no minus sign in front, the sign read is `+`
    have hneg : negative = false := by
      split at hsplit
      · next ds hds => simp [hds] at hs
      all_goals simp_all
    subst hneg
    simp only [Bool.false_eq_true, if_false] at h
    split_ifs at h with hbad hrange
    cases h
    omega

/-- What `strconv.ParseInt` returns is an `int64`. -/
theorem parseInt_mem {s : String} {v : Int} (h : parseInt s = some v) :
    minInt64 ≤ v ∧ v ≤ maxInt64 := by
  unfold parseInt at h
  split at h
  -- the value, negated or not, is returned only when it is in range
  split_ifs at h with hbad hneg <;> dsimp only at h <;> split_ifs at h with hrange
  all_goals
    cases h
    exact hrange

theorem minInt64_le_of_nonneg {n : Int} (hn : 0 ≤ n) : minInt64 ≤ n :=
  le_trans (by decide) hn

theorem toInt32_of_mem {n : Int} (hlo : -2 ^ 31 ≤ n) (hhi : n < 2 ^ 31) : toInt32 n = n :=
  Int.bmod_eq_of_le hlo hhi

theorem wrap64_of_mem {n : Int} (hlo : minInt64 ≤ n) (hhi : n ≤ maxInt64) : wrap64 n = n := by
  unfold minInt64 maxInt64 at *
  exact Int.bmod_eq_of_le hlo (by omega)

/-- An `int64` result is at most `MaxInt64`, whatever overflowed. -/
theorem wrap64_le_maxInt64 (n : Int) : wrap64 n ≤ maxInt64 := by
  have h := @Int.bmod_lt n (2 ^ 64) (by norm_num)
  unfold wrap64 maxInt64
  norm_num at h ⊢
  omega

end Go
end Kubernetes
