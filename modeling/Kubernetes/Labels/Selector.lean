import Kubernetes.Go.Json
import Kubernetes.Go.Sort
import Kubernetes.Go.Strconv
import Kubernetes.Labels.Validation

/-!
# Label selector requirements

A label selector (`apimachinery/pkg/labels/selector.go`) is a list of requirements, each a
key, an operator and a list of values; it matches a set of labels when every requirement
does (`Requirement.Matches`).  `NewRequirement` checks a requirement and lists what is wrong
with it as field errors, and `Requirement.String` prints it back in the selector syntax.

Go's `selection.Operator` is a string; here it is the enumeration of the nine operators
`NewRequirement` accepts, so the `NotSupported` error it gives any other string has no
counterpart.  `Labels` is the interface a selector reads labels through.  A field error
keeps its path and detail as Go renders them, and its value as Go prints it with `%q`
(`Go.quote`) or `%#v`.
-/

set_option linter.dupNamespace false

namespace Kubernetes
namespace Labels

/-- `selection.Operator`. -/
inductive Operator
  | doesNotExist
  | equals
  | doubleEquals
  | «in»
  | notEquals
  | notIn
  | «exists»
  | greaterThan
  | lessThan
  deriving DecidableEq, Repr

/-- `Requirement`. -/
structure Requirement where
  key : String
  operator : Operator
  strValues : List String
  deriving DecidableEq, Repr

/-- `Labels`: whether a label is set, and its value. -/
structure Labels where
  has : String → Bool
  get : String → String

/-! ## Matching -/

/-- `Requirement.hasValue`. -/
def Requirement.hasValue (r : Requirement) (value : String) : Bool :=
  r.strValues.contains value
attribute [grind] Requirement.hasValue

/-- `Requirement.Matches`: `Gt` and `Lt` compare the label's value and the one value of the
requirement as `int64`s, and fail when either does not parse. -/
def Requirement.matches (r : Requirement) (ls : Labels) : Bool :=
  match r.operator with
  | .«in» | .equals | .doubleEquals =>
      if !ls.has r.key then false else r.hasValue (ls.get r.key)
  | .notIn | .notEquals =>
      if !ls.has r.key then true else !r.hasValue (ls.get r.key)
  | .«exists» => ls.has r.key
  | .doesNotExist => !ls.has r.key
  | .greaterThan | .lessThan =>
      if !ls.has r.key then false
      else
        match Go.parseInt (ls.get r.key) with
        | none => false
        | some lsValue =>
            match r.strValues with
            | [value] =>
                match Go.parseInt value with
                | none => false
                | some rValue =>
                    (r.operator == .greaterThan && decide (lsValue > rValue)) ||
                      (r.operator == .lessThan && decide (lsValue < rValue))
            | _ => false
attribute [grind] Requirement.matches

/-- `internalSelector.Matches`: every requirement matches. -/
def selectorMatches (s : List Requirement) (ls : Labels) : Bool :=
  s.all fun r => r.matches ls
attribute [grind] selectorMatches

/-- A selector matches the same labels whatever the order of its requirements. -/
theorem selectorMatches_perm {s s' : List Requirement} (h : s.Perm s') (ls : Labels) :
    selectorMatches s ls = selectorMatches s' ls :=
  h.all_eq

/-! ## Printing -/

/-- `sort.StringsAreSorted`. -/
def stringsAreSorted : List String → Bool
  | a :: b :: rest => !decide (b < a) && stringsAreSorted (b :: rest)
  | _ => true
attribute [grind] stringsAreSorted

/-- `safeSort`: the values in order, copied only when they are not. -/
def safeSort (values : List String) : List String :=
  if stringsAreSorted values then values else Go.sort values (fun a b => decide (a < b))
attribute [grind] safeSort

/-- What `Requirement.String` writes after the key, `none` where it returns the key alone. -/
def operatorText : Operator → Option String
  | .equals => some "="
  | .doubleEquals => some "=="
  | .notEquals => some "!="
  | .«in» => some " in "
  | .notIn => some " notin "
  | .greaterThan => some ">"
  | .lessThan => some "<"
  | .«exists» | .doesNotExist => none
attribute [grind] operatorText

/-- `Requirement.String`: `!key`, `key`, `key<op>value`, or `key in (v1,v2)` with the values
in order. -/
def Requirement.string (r : Requirement) : String :=
  let sb := (if r.operator = .doesNotExist then "!" else "") ++ r.key
  match operatorText r.operator with
  | none => sb
  | some text =>
      let values := match r.strValues with
        | [value] => value
        | values => String.intercalate "," (safeSort values)
      if r.operator = .«in» ∨ r.operator = .notIn then sb ++ text ++ "(" ++ values ++ ")"
      else sb ++ text ++ values
attribute [grind] Requirement.string

/-- `internalSelector.String`: the requirements joined by commas. -/
def selectorString (s : List Requirement) : String :=
  String.intercalate "," (s.map Requirement.string)
attribute [grind] selectorString

/-! ## `NewRequirement` -/

/-- `field.Error` of type `FieldValueInvalid`: the path of the field, the value found as Go
prints it, and the detail. -/
structure FieldError where
  field : String
  badValue : String
  detail : String
  deriving DecidableEq, Repr

/-- `Error.Error()`. -/
def FieldError.error (e : FieldError) : String :=
  e.field ++ ": Invalid value: " ++ e.badValue ++ (if e.detail = "" then "" else ": " ++ e.detail)
attribute [grind] FieldError.error

/-- `%#v` of a `[]string`. -/
def goStringSlice (vals : List String) : String :=
  "[]string\x7b" ++ String.intercalate ", " (vals.map Go.quote) ++ "\x7d"
attribute [grind] goStringSlice

/-- The messages in order, each once. -/
def dedupMessages (msgs : List String) : List String :=
  msgs.foldl (fun seen msg => if msg ∈ seen then seen else seen ++ [msg]) []
attribute [grind] dedupMessages

/-- `ErrorList.ToAggregate().Error()`: the messages without repeats, alone or in brackets. -/
def aggregateError (errs : List FieldError) : String :=
  match dedupMessages (errs.map FieldError.error) with
  | [msg] => msg
  | msgs => "[" ++ String.intercalate ", " msgs ++ "]"
attribute [grind] aggregateError

/-- `validateLabelKey(k, path)`. -/
def validateLabelKey (k path : String) : Option FieldError :=
  let errs := Validation.isQualifiedName k
  if errs.length ≠ 0 then some ⟨path, Go.quote k, String.intercalate "; " errs⟩ else none
attribute [grind] validateLabelKey

/-- `validateLabelValue(k, v, path)`: the path is subscripted by the key. -/
def validateLabelValue (k v path : String) : Option FieldError :=
  let errs := Validation.isValidLabelValue v
  if errs.length ≠ 0 then some ⟨path ++ "[" ++ k ++ "]", Go.quote v, String.intercalate "; " errs⟩
  else none
attribute [grind] validateLabelValue

/-- The path of the `i`-th value. -/
def valuePathIndex (i : Nat) : String :=
  "values[" ++ toString i ++ "]"
attribute [grind] valuePathIndex

/-- The errors `NewRequirement` finds in the number of values for the operator, and in the
values of `Gt` and `Lt`. -/
def operatorErrors (op : Operator) (vals : List String) : List FieldError :=
  match op with
  | .«in» | .notIn =>
      if vals.length = 0 then
        [⟨"values", goStringSlice vals, "for 'in', 'notin' operators, values set can't be empty"⟩]
      else []
  | .equals | .doubleEquals | .notEquals =>
      if vals.length ≠ 1 then
        [⟨"values", goStringSlice vals, "exact-match compatibility requires one single value"⟩]
      else []
  | .«exists» | .doesNotExist =>
      if vals.length ≠ 0 then
        [⟨"values", goStringSlice vals, "values set must be empty for exists and does not exist"⟩]
      else []
  | .greaterThan | .lessThan =>
      (if vals.length ≠ 1 then
        [⟨"values", goStringSlice vals, "for 'Gt', 'Lt' operators, exactly one value is required"⟩]
      else []) ++
      vals.zipIdx.filterMap fun (v, i) =>
        if (Go.parseInt v).isNone then
          some ⟨valuePathIndex i, Go.quote v, "for 'Gt', 'Lt' operators, the value must be an integer"⟩
        else none
attribute [grind] operatorErrors

/-- `NewRequirement(key, op, vals)`: the requirement, and the errors of the key, of the
operator's values and of each value, in that order. -/
def newRequirement (key : String) (op : Operator) (vals : List String) :
    Requirement × List FieldError :=
  let keyErrs := (validateLabelKey key "key").toList
  let valueErrs := vals.zipIdx.filterMap fun (v, i) => validateLabelValue key v (valuePathIndex i)
  (⟨key, op, vals⟩, keyErrs ++ operatorErrors op vals ++ valueErrs)
attribute [grind] newRequirement

/-! ## What a requirement without errors is -/

theorem validateLabelKey_eq_none {k path : String} :
    validateLabelKey k path = none ↔ Validation.isQualifiedName k = [] := by
  unfold validateLabelKey
  by_cases h : Validation.isQualifiedName k = [] <;> simp [h]

theorem validateLabelValue_eq_none {k v path : String} :
    validateLabelValue k v path = none ↔ Validation.isValidLabelValue v = [] := by
  unfold validateLabelValue
  by_cases h : Validation.isValidLabelValue v = [] <;> simp [h]

/-- `NewRequirement` finds nothing wrong exactly when the key and every value are valid and
the operator has its number of values, an integer for `Gt` and `Lt`. -/
theorem newRequirement_errors_eq_nil {key : String} {op : Operator} {vals : List String} :
    (newRequirement key op vals).2 = [] ↔
      Validation.isQualifiedName key = [] ∧ operatorErrors op vals = [] ∧
        ∀ v ∈ vals, Validation.isValidLabelValue v = [] := by
  simp only [newRequirement, List.append_eq_nil_iff, Option.toList_eq_nil_iff,
    validateLabelKey_eq_none, List.filterMap_eq_nil_iff, validateLabelValue_eq_none]
  constructor
  · rintro ⟨⟨hkey, hop⟩, hvals⟩
    refine ⟨hkey, hop, fun v hv => ?_⟩
    obtain ⟨i, hi, rfl⟩ := List.getElem_of_mem hv
    exact hvals (vals[i], i) (List.mk_mem_zipIdx_iff_getElem?.mpr (List.getElem?_eq_getElem hi))
  · rintro ⟨hkey, hop, hvals⟩
    exact ⟨⟨hkey, hop⟩, fun p hp => hvals p.1 (List.fst_mem_of_mem_zipIdx hp)⟩

/-- The values each operator takes: some for `in` and `notin`, one for the exact matches,
none for `exists` and `!`, one integer for `gt` and `lt`. -/
def ValuesFit : Operator → List String → Prop
  | .«in», vals | .notIn, vals => vals ≠ []
  | .equals, vals | .doubleEquals, vals | .notEquals, vals => ∃ v, vals = [v]
  | .«exists», vals | .doesNotExist, vals => vals = []
  | .greaterThan, vals | .lessThan, vals => ∃ v n, vals = [v] ∧ Go.parseInt v = some n
attribute [grind] ValuesFit

theorem operatorErrors_comparison_eq_nil {vals : List String} :
    ((if vals.length ≠ 1 then
        [(⟨"values", goStringSlice vals, "for 'Gt', 'Lt' operators, exactly one value is required"⟩ :
          FieldError)]
      else []) ++
      vals.zipIdx.filterMap fun (v, i) =>
        if (Go.parseInt v).isNone then
          some (⟨valuePathIndex i, Go.quote v,
            "for 'Gt', 'Lt' operators, the value must be an integer"⟩ : FieldError)
        else none) = [] ↔ ∃ v n, vals = [v] ∧ Go.parseInt v = some n := by
  match vals with
  | [] => simp
  | [v] => simp [Option.isNone_iff_eq_none, Option.ne_none_iff_exists']
  | _ :: _ :: _ => simp

theorem operatorErrors_eq_nil {op : Operator} {vals : List String} :
    operatorErrors op vals = [] ↔ ValuesFit op vals := by
  cases op <;> simp only [operatorErrors, ValuesFit]
  all_goals first
    | exact operatorErrors_comparison_eq_nil
    | (split_ifs <;> simp_all [List.length_eq_one_iff])

end Labels
end Kubernetes
