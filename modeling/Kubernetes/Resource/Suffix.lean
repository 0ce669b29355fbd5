import Kubernetes.Go.Strconv

/-!
# `resource/suffix.go`: the suffixer

A suffix stands for a power `base^exponent` and a `Format`.  `newSuffixer` fills two tables
by `addSuffix`, which writes into Go maps in both directions, so a later entry for the same
suffix (or the same pair) replaces an earlier one: the tables are kept as the list of
`addSuffix` calls, and a lookup finds the last matching entry.  `interpret` first tries
the tables, then `e`/`E` followed by an `int64` exponent that it converts to `int32`.
`fastLookup` (`interpret` here) answers the common suffixes without the tables, and falls back
on them for the others.
-/

namespace Kubernetes
namespace Resource

open Go

/-- `Format`: how a quantity is written. -/
inductive Format
  | decimalExponent
  | binarySI
  | decimalSI
  deriving DecidableEq, Repr

/-- The calls of `addSuffix` on `binSuffixes` in `newSuffixer`: suffix, base, exponent. -/
def binSuffixes : List (String × Int × Int) :=
  [("Ki", 2, 10), ("Mi", 2, 20), ("Gi", 2, 30), ("Ti", 2, 40), ("Pi", 2, 50), ("Ei", 2, 60)]
attribute [grind] binSuffixes

/-- The calls of `addSuffix` on `decSuffixes` in `newSuffixer`; `""` is added twice, for
`2^0` and for `10^0`. -/
def decSuffixes : List (String × Int × Int) :=
  [("", 2, 0), ("n", 10, -9), ("u", 10, -6), ("m", 10, -3), ("", 10, 0), ("k", 10, 3),
    ("M", 10, 6), ("G", 10, 9), ("T", 10, 12), ("P", 10, 15), ("E", 10, 18)]
attribute [grind] decSuffixes

/-- `listSuffixer.lookup`: the pair of the last entry for the suffix. -/
def lookup (table : List (String × Int × Int)) (s : String) : Option (Int × Int) :=
  (table.reverse.find? (·.1 = s)).map (·.2)
attribute [grind] lookup

/-- `listSuffixer.constructBytes`: the suffix of the last entry for the pair. -/
def constructFromTable (table : List (String × Int × Int)) (base exponent : Int) :
    Option String :=
  (table.reverse.find? (·.2 = (base, exponent))).map (·.1)
attribute [grind] constructFromTable

/-- `suffixHandler.interpret`. -/
def suffixHandlerInterpret (suffix : String) : Option (Int × Int × Format) :=
  match lookup decSuffixes suffix with
  | some (b, e) => some (b, e, .decimalSI)
  | none =>
      match lookup binSuffixes suffix with
      | some (b, e) => some (b, e, .binarySI)
      | none =>
          match suffix.toList with
          | c :: rest =>
              -- `len(suffix) > 1 && (suffix[0] == 'E' || suffix[0] == 'e')`, then
              -- `int32(parsed)` of the `int64` exponent
              if rest ≠ [] ∧ (c = 'E' ∨ c = 'e') then
                (parseInt (String.ofList rest)).map fun parsed => (10, toInt32 parsed, .decimalExponent)
              else none
          | [] => none
attribute [grind] suffixHandlerInterpret

/-- `fastLookup.interpret`: the common suffixes first, then `suffixHandler.interpret`. -/
def interpret (s : String) : Option (Int × Int × Format) :=
  if s = "" then some (10, 0, .decimalSI)
  else if s = "n" then some (10, -9, .decimalSI)
  else if s = "u" then some (10, -6, .decimalSI)
  else if s = "m" then some (10, -3, .decimalSI)
  else if s = "k" then some (10, 3, .decimalSI)
  else if s = "M" then some (10, 6, .decimalSI)
  else if s = "G" then some (10, 9, .decimalSI)
  else suffixHandlerInterpret s
attribute [grind] interpret

/-- `suffixHandler.constructBytes`; callers ignore the flag, so a missing suffix is `none`
and becomes the empty suffix there. -/
def constructBytes (base exponent : Int) : Format → Option String
  | .decimalSI => constructFromTable decSuffixes base exponent
  | .binarySI => constructFromTable binSuffixes base exponent
  | .decimalExponent =>
      if base ≠ 10 then none
      else if exponent = 0 then some ""
      else some ("e" ++ formatInt exponent)
attribute [grind] constructBytes

end Resource
end Kubernetes
