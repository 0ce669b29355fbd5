import Mathlib.Data.String.Basic
import Mathlib.Data.List.Pairwise

/-!
# Go's untyped JSON values

`json.Unmarshal` into an `interface{}` builds `nil`, `bool`, `float64`, `string`,
`[]interface{}` and `map[string]interface{}` values; `Value` is that universe, and the
strategic merge patch code works on nothing else.

Modelling choices:
* A `float64` is kept as the integer it holds; every integer below `2^53` is exact in
  `float64`, and the code only compares and prints numbers.
* A `map[string]interface{}` is an `Object`: its entries as a list in increasing key
  order, no key twice (`Object.Sorted`).  Each Go map has exactly one such list, so two
  maps are equal, also for `reflect.DeepEqual`, exactly when their lists are; ranging over
  a map visits the entries in key order, which is one of the orders Go may choose.
  `Object.set` and `Object.erase` are the assignment `m[k] = v` and `delete(m, k)`.
* Go's `==` on two interface values panics when both hold maps or both hold slices; the
  code compares such values only on inputs that break its preconditions, and the model
  compares them structurally there.
-/

namespace Kubernetes
namespace Go

/-- A JSON value as `encoding/json` decodes it into an `interface{}`. -/
inductive Value where
  | null
  | bool (b : Bool)
  | number (n : Int)
  | string (s : String)
  | array (items : List Value)
  | object (fields : List (String × Value))
  deriving Repr, Inhabited

/-- A `map[string]interface{}`: its entries in increasing key order. -/
abbrev Object := List (String × Value)

namespace Value

mutual
/-- Structural equality of values. -/
def beq : Value → Value → Bool
  | .null, .null => true
  | .bool a, .bool b => a == b
  | .number a, .number b => a == b
  | .string a, .string b => a == b
  | .array as, .array bs => beqItems as bs
  | .object fs, .object gs => beqFields fs gs
  | _, _ => false
/-- Structural equality of lists of values. -/
def beqItems : List Value → List Value → Bool
  | [], [] => true
  | a :: as, b :: bs => beq a b && beqItems as bs
  | _, _ => false
/-- Structural equality of entry lists. -/
def beqFields : List (String × Value) → List (String × Value) → Bool
  | [], [] => true
  | (k, a) :: as, (l, b) :: bs => k == l && beq a b && beqFields as bs
  | _, _ => false
end

mutual
theorem beq_iff : ∀ a b : Value, beq a b = true ↔ a = b
  | .null, b => by cases b <;> simp [beq]
  | .bool x, b => by cases b <;> simp [beq]
  | .number x, b => by cases b <;> simp [beq]
  | .string x, b => by cases b <;> simp [beq]
  | .array xs, b => by cases b <;> simp [beq, beqItems_iff xs]
  | .object fs, b => by cases b <;> simp [beq, beqFields_iff fs]
theorem beqItems_iff : ∀ as bs : List Value, beqItems as bs = true ↔ as = bs
  | [], bs => by cases bs <;> simp [beqItems]
  | a :: as, bs => by cases bs <;> simp [beqItems, beq_iff a, beqItems_iff as]
theorem beqFields_iff : ∀ fs gs : List (String × Value), beqFields fs gs = true ↔ fs = gs
  | [], gs => by cases gs <;> simp [beqFields]
  | (k, a) :: fs, gs => by
      cases gs with
      | nil => simp [beqFields]
      | cons g gs =>
          obtain ⟨l, b⟩ := g
          simp [beqFields, beq_iff a, beqFields_iff fs, and_assoc]
end

instance : DecidableEq Value := fun a b => decidable_of_iff _ (beq_iff a b)

mutual
/-- How deep arrays and objects nest: `0` for a scalar. -/
def depth : Value → Nat
  | .array items => depthItems items + 1
  | .object fields => depthFields fields + 1
  | _ => 0
/-- The greatest depth of a list of values. -/
def depthItems : List Value → Nat
  | [] => 0
  | v :: vs => max v.depth (depthItems vs)
/-- The greatest depth of the values of an entry list. -/
def depthFields : List (String × Value) → Nat
  | [] => 0
  | (_, v) :: fs => max v.depth (depthFields fs)
end

theorem depth_le_depthItems {v : Value} : ∀ {vs : List Value}, v ∈ vs → v.depth ≤ depthItems vs
  | w :: ws, h => by
      rw [depthItems]
      rcases List.mem_cons.mp h with rfl | h
      · exact Nat.le_max_left _ _
      · exact Nat.le_trans (depth_le_depthItems h) (Nat.le_max_right _ _)

theorem depth_le_depthFields {k : String} {v : Value} :
    ∀ {fs : List (String × Value)}, (k, v) ∈ fs → v.depth ≤ depthFields fs
  | (l, w) :: gs, h => by
      rw [depthFields]
      rcases List.mem_cons.mp h with h | h
      · cases h
        exact Nat.le_max_left _ _
      · exact Nat.le_trans (depth_le_depthFields h) (Nat.le_max_right _ _)

/-- A value of an object is less deep than the object. -/
theorem depth_lt_of_mem_fields {k : String} {v : Value} {fs : List (String × Value)}
    (h : (k, v) ∈ fs) : v.depth < (Value.object fs).depth :=
  Nat.lt_succ_of_le (depth_le_depthFields h)

end Value

/-! ## Maps -/

namespace Object

/-- `v, ok := m[k]`. -/
def get? (m : Object) (k : String) : Option Value :=
  match m with
  | [] => none
  | (k', v) :: m => if k' = k then some v else get? m k
attribute [grind] get?

/-- `m[k] = v`: the entry is replaced, or inserted at its place in key order. -/
def set (m : Object) (k : String) (v : Value) : Object :=
  match m with
  | [] => [(k, v)]
  | (k', v') :: m =>
      if k' = k then (k, v) :: m
      else if k < k' then (k, v) :: (k', v') :: m
      else (k', v') :: set m k v
attribute [grind] set

/-- `delete(m, k)`. -/
def erase (m : Object) (k : String) : Object :=
  m.filter fun e => e.1 != k
attribute [grind] erase

/-- The keys in increasing order, no key twice: the invariant of every `Object`. -/
def Sorted (m : Object) : Prop :=
  (m.map Prod.fst).Pairwise (· < ·)
attribute [grind] Sorted

variable {m : Object} {k j : String} {v : Value}

@[simp] theorem get?_nil (k : String) : get? [] k = none := rfl

theorem get?_cons (k' : String) (v' : Value) (m : Object) (k : String) :
    get? ((k', v') :: m) k = if k' = k then some v' else get? m k := rfl

@[simp] theorem get?_set_self (m : Object) (k : String) (v : Value) : get? (set m k v) k = some v := by
  induction m with
  | nil => simp [set, get?_cons]
  | cons e m ih =>
      obtain ⟨k', v'⟩ := e
      unfold set
      by_cases hk : k' = k
      · simp [hk, get?_cons]
      · by_cases hlt : k < k'
        · simp [hk, hlt, get?_cons]
        · simp [hk, hlt, get?_cons, ih]

theorem get?_set_of_ne (m : Object) (h : k ≠ j) (v : Value) : get? (set m k v) j = get? m j := by
  induction m with
  | nil => simp [set, get?_cons, h]
  | cons e m ih =>
      obtain ⟨k', v'⟩ := e
      unfold set
      by_cases hk : k' = k
      · subst hk
        simp [get?_cons, h]
      · by_cases hlt : k < k'
        · simp [hk, hlt, get?_cons, h]
        · simp [hk, hlt, get?_cons, ih]

theorem erase_cons_self (m : Object) (k : String) (v : Value) :
    erase ((k, v) :: m) k = erase m k := by
  simp [erase]

theorem erase_cons_of_ne (m : Object) {k' k : String} (hk : k' ≠ k) (v : Value) :
    erase ((k', v) :: m) k = (k', v) :: erase m k := by
  simp [erase, hk]

@[simp] theorem get?_erase_self (m : Object) (k : String) : get? (erase m k) k = none := by
  induction m with
  | nil => rfl
  | cons e m ih =>
      obtain ⟨k', v'⟩ := e
      by_cases hk : k' = k
      · subst hk
        rw [erase_cons_self, ih]
      · rw [erase_cons_of_ne m hk, get?_cons, if_neg hk, ih]

theorem get?_erase_of_ne (m : Object) (h : k ≠ j) : get? (erase m k) j = get? m j := by
  induction m with
  | nil => rfl
  | cons e m ih =>
      obtain ⟨k', v'⟩ := e
      by_cases hk : k' = k
      · subst hk
        rw [erase_cons_self, ih, get?_cons, if_neg h]
      · rw [erase_cons_of_ne m hk, get?_cons, get?_cons, ih]

theorem mem_keys_of_get? (h : get? m k = some v) : k ∈ m.map Prod.fst := by
  induction m with
  | nil => cases h
  | cons e m ih =>
      obtain ⟨k', v'⟩ := e
      rw [get?_cons] at h
      split_ifs at h with hk
      · simp [hk]
      · exact List.mem_cons_of_mem _ (ih h)

theorem get?_eq_none_of_not_mem (h : k ∉ m.map Prod.fst) : get? m k = none := by
  cases hget : get? m k with
  | none => rfl
  | some v => exact absurd (mem_keys_of_get? hget) h

/-- Every key of `set m k v` is `k` or a key of `m`. -/
theorem mem_keys_set (h : j ∈ (set m k v).map Prod.fst) : j = k ∨ j ∈ m.map Prod.fst := by
  induction m with
  | nil => simpa [set] using h
  | cons e m ih =>
      obtain ⟨k', v'⟩ := e
      unfold set at h
      split_ifs at h with hk hlt
      · subst hk
        simp only [List.map_cons, List.mem_cons] at h
        rcases h with h | h
        · exact Or.inl h
        · exact Or.inr (List.mem_cons_of_mem _ h)
      · simp only [List.map_cons, List.mem_cons] at h
        rcases h with h | h | h
        · exact Or.inl h
        · exact Or.inr (by simp [h])
        · exact Or.inr (List.mem_cons_of_mem _ h)
      · simp only [List.map_cons, List.mem_cons] at h
        rcases h with h | h
        · exact Or.inr (by simp [h])
        · rcases ih h with h | h
          · exact Or.inl h
          · exact Or.inr (List.mem_cons_of_mem _ h)

theorem Sorted.tail {e : String × Value} (h : Sorted (e :: m)) : Sorted m :=
  (List.pairwise_cons.mp h).2

theorem Sorted.lt_of_mem {e : String × Value} (h : Sorted (e :: m)) (hj : j ∈ m.map Prod.fst) :
    e.1 < j :=
  (List.pairwise_cons.mp h).1 j hj

theorem Sorted.set (h : Sorted m) (k : String) (v : Value) : Sorted (set m k v) := by
  induction m with
  | nil => simp [Object.set, Sorted]
  | cons e m ih =>
      obtain ⟨k', v'⟩ := e
      unfold Object.set
      split_ifs with hk hlt
      · subst hk
        exact h
      · refine List.pairwise_cons.mpr ⟨fun j hj => ?_, h⟩
        simp only [List.map_cons, List.mem_cons] at hj
        rcases hj with rfl | hj
        · exact hlt
        · exact lt_trans hlt (h.lt_of_mem hj)
      · refine List.pairwise_cons.mpr ⟨fun j hj => ?_, ih h.tail⟩
        rcases mem_keys_set hj with rfl | hj
        · exact lt_of_le_of_ne (not_lt.mp hlt) hk
        · exact h.lt_of_mem hj

theorem Sorted.erase (h : Sorted m) (k : String) : Sorted (erase m k) := by
  unfold Sorted Object.erase
  rw [← List.filterMap_eq_filter, List.map_filterMap]
  exact List.Pairwise.sublist (by
    rw [← List.map_filterMap]
    simpa [List.filterMap_eq_filter] using (List.filter_sublist (l := m)).map Prod.fst) h

theorem get?_eq_none_of_lt {w : Value} (h : Sorted ((j, w) :: m)) (hk : k < j) :
    get? ((j, w) :: m) k = none := by
  rw [get?_cons, if_neg (ne_of_gt hk)]
  exact get?_eq_none_of_not_mem fun hm => absurd (lt_trans hk (h.lt_of_mem hm)) (lt_irrefl k)

/-- Two sorted maps with the same entries are the same list. -/
theorem ext_get? {a b : Object} (ha : Sorted a) (hb : Sorted b) (h : ∀ k, get? a k = get? b k) :
    a = b := by
  induction a generalizing b with
  | nil =>
      cases b with
      | nil => rfl
      | cons e b =>
          obtain ⟨l, w⟩ := e
          have := h l
          simp [get?_cons] at this
  | cons e a ih =>
      obtain ⟨k, v⟩ := e
      cases b with
      | nil =>
          have := h k
          simp [get?_cons] at this
      | cons e' b =>
          obtain ⟨l, w⟩ := e'
          -- the first keys agree: the smaller one would be missing from the other map
          have hkl : k = l := by
            rcases lt_trichotomy k l with hlt | heq | hgt
            · have := h k
              rw [get?_eq_none_of_lt hb hlt, get?_cons, if_pos rfl] at this
              cases this
            · exact heq
            · have := h l
              rw [get?_eq_none_of_lt ha hgt, get?_cons, if_pos rfl] at this
              cases this
          subst hkl
          have hvw : v = w := by simpa [get?_cons] using h k
          subst hvw
          have htail : ∀ j, get? a j = get? b j := by
            intro j
            by_cases hj : k = j
            · subst hj
              rw [get?_eq_none_of_not_mem fun hm => lt_irrefl k (ha.lt_of_mem hm),
                get?_eq_none_of_not_mem fun hm => lt_irrefl k (hb.lt_of_mem hm)]
            · simpa [get?_cons, hj] using h j
          rw [ih ha.tail hb.tail htail]

theorem mem_of_get? (h : get? m k = some v) : (k, v) ∈ m := by
  induction m with
  | nil => cases h
  | cons e m ih =>
      obtain ⟨k', v'⟩ := e
      rw [get?_cons] at h
      split_ifs at h with hk
      · cases h
        subst hk
        exact List.mem_cons_self
      · exact List.mem_cons_of_mem _ (ih h)

theorem get?_of_mem (h : Sorted m) (hm : (k, v) ∈ m) : get? m k = some v := by
  induction m with
  | nil => cases hm
  | cons e m ih =>
      obtain ⟨k', v'⟩ := e
      rcases List.mem_cons.mp hm with he | hm
      · cases he
        simp [get?_cons]
      · have hlt : k' < k := h.lt_of_mem (List.mem_map.mpr ⟨_, hm, rfl⟩)
        rw [get?_cons, if_neg (ne_of_lt hlt), ih h.tail hm]

/-- The first key of a sorted map is not among the others. -/
theorem Sorted.get?_tail {w : Value} (h : Sorted ((k, w) :: m)) : get? m k = none :=
  get?_eq_none_of_not_mem fun hm => lt_irrefl k (h.lt_of_mem hm)

section Fold

variable {step : Object → String × Value → Object}

/-- Folding over a sorted map a step that changes at most the entry of the key it is
given: each key of the map is changed once, by `g`, and the others are left alone. -/
theorem get?_foldl (g : String → Value → Option Value → Option Value)
    (hstep : ∀ acc k v j, get? (step acc (k, v)) j = if k = j then g k v (get? acc k) else get? acc j)
    {l : Object} (hl : Sorted l) (acc : Object) (j : String) :
    get? (l.foldl step acc) j =
      match get? l j with
      | some v => g j v (get? acc j)
      | none => get? acc j := by
  induction l generalizing acc with
  | nil => rfl
  | cons e l ih =>
      obtain ⟨k, v⟩ := e
      rw [List.foldl_cons, ih hl.tail, get?_cons]
      by_cases hk : k = j
      · subst hk
        rw [hl.get?_tail, hstep, if_pos rfl, if_pos rfl]
      · rw [hstep, if_neg hk, if_neg hk]

theorem Sorted.foldl (hstep : ∀ acc e, Sorted acc → Sorted (step acc e)) :
    ∀ (l : Object) {acc : Object}, Sorted acc → Sorted (l.foldl step acc)
  | [], _, h => h
  | e :: l, _, h => Sorted.foldl hstep l (hstep _ e h)

end Fold

end Object

/-! ## Types and printing -/

/-- The dynamic types a decoded value can have. -/
inductive Kind
  | bool
  | float64
  | string
  | slice
  | map
  deriving DecidableEq, Repr

/-- `reflect.Type.String()`. -/
def Kind.typeString : Kind → String
  | .bool => "bool"
  | .float64 => "float64"
  | .string => "string"
  | .slice => "[]interface " ++ "\x7b\x7d"
  | .map => "map[string]interface " ++ "\x7b\x7d"

/-- `reflect.Kind.String()`. -/
def Kind.kindString : Kind → String
  | .bool => "bool"
  | .float64 => "float64"
  | .string => "string"
  | .slice => "slice"
  | .map => "map"
attribute [grind] Kind.kindString

namespace Value

/-- `reflect.TypeOf(v)`: `none` for `nil`. -/
def kind? : Value → Option Kind
  | .null => none
  | .bool _ => some .bool
  | .number _ => some .float64
  | .string _ => some .string
  | .array _ => some .slice
  | .object _ => some .map
attribute [grind] kind?

/-- `reflect.TypeOf(v)` printed with `%s`. -/
def typeString (v : Value) : String :=
  match v.kind? with
  | some k => k.typeString
  | none => "%!s(<nil>)"
attribute [grind] typeString

/-- `%v` of a `float64` holding the integer `n`: the shortest decimal form, switching to
an exponent from `1e+06` on, as `strconv.FormatFloat(f, 'g', -1, 64)` does. -/
def formatFloat (n : Int) : String :=
  let digits := (toString n.natAbs).toList
  let sign := if n < 0 then "-" else ""
  if digits.length ≤ 6 then sign ++ String.ofList digits
  else
    let mantissa := (digits.reverse.dropWhile (· = '0')).reverse
    let exponent := digits.length - 1
    sign ++ String.ofList (mantissa.take 1) ++
      (if 1 < mantissa.length then "." ++ String.ofList (mantissa.drop 1) else "") ++
      "e+" ++ (if exponent < 10 then "0" else "") ++ toString exponent
attribute [grind] formatFloat

mutual
/-- `fmt.Sprintf` of a value with `%v` (`s = false`) or `%s` (`s = true`); `%s` of a
non-string prints the `%!s(type=value)` form.  Maps print in key order. -/
def format (s : Bool) : Value → String
  | .null => if s then "%!s(<nil>)" else "<nil>"
  | .bool b => if s then "%!s(bool=" ++ toString b ++ ")" else toString b
  | .number n => if s then "%!s(float64=" ++ formatFloat n ++ ")" else formatFloat n
  | .string str => str
  | .array items => "[" ++ " ".intercalate (formatItems s items) ++ "]"
  | .object fields => "map[" ++ " ".intercalate (formatFields s fields) ++ "]"
/-- The elements of a slice, printed. -/
def formatItems (s : Bool) : List Value → List String
  | [] => []
  | v :: vs => format s v :: formatItems s vs
/-- The entries of a map, printed as `key:value`. -/
def formatFields (s : Bool) : List (String × Value) → List String
  | [] => []
  | (k, v) :: fs => (k ++ ":" ++ format s v) :: formatFields s fs
end

end Value

/-- `strconv.Quote` for strings whose only special characters are quotes and
backslashes. -/
def quote (s : String) : String :=
  "\"" ++ String.join (s.toList.map fun c =>
    if c = '"' then "\\\"" else if c = '\\' then "\\\\" else c.toString) ++ "\""
attribute [grind] quote

end Go
end Kubernetes
