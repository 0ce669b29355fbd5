import Kubernetes.Go.BigInt
import Kubernetes.Transition.Reachable

/-!
# `registry/core/service/allocator/bitmap.go`: `AllocationBitmap`

The bitmap behind the service IP and node-port ranges: a `big.Int` whose bit `i` says that
offset `i` is reserved, a cached `count` of the reserved offsets, and `max`, the size of
the range.  `AllocateNext` asks the strategy `randomScanStrategyWithOffset` for a clear
bit: it scans the upper band `[offset, max)` from a random start, then the lower band
`[0, offset)`.  The generator is an input of the model: each `AllocateNext` comes with the
two numbers it may draw, and `rand.Intn(n)` is `draw % n`, panicking unless `n > 0`.

`ForEach` and `countBits` walk the words of `Bits()`; `forEachWords_bigWords` and
`countBits_eq` say that they list and count the set bits.  `Valid` is the representation
invariant, kept by every call (`Valid.step`), and `Sound` what it gives a caller in every
reachable state (`allocationBitmap_sound`).  The one gap is `offset = max > 0`: the upper
band is empty and `rand.Intn(0)` panics (`allocateNext_panics_at_offset_max`).
-/

namespace Kubernetes
namespace Alloc

open Go

/-- The inner loop of `ForEach` over one word: the positions `base + bit` of its set bits,
while the word is non-zero; `fuel` is the width of the word. -/
def forEachBit (base : Nat) : Nat → Nat → Nat → List Nat
  | 0, _, _ => []
  | fuel + 1, bit, word =>
      if word = 0 then []
      -- `word & 1`, then `word &^ 1` and `word >> 1` together halve the word
      else (if word % 2 ≠ 0 then [base + bit] else []) ++ forEachBit base fuel (bit + 1) (word / 2)
attribute [grind] forEachBit

/-- The outer loop of `ForEach`, over the words of `Bits()` from index `wordIdx`. -/
def forEachWords : Nat → List Nat → List Nat
  | _, [] => []
  | wordIdx, word :: words =>
      forEachBit (wordIdx * wordBits) wordBits 0 word ++ forEachWords (wordIdx + 1) words
attribute [grind] forEachWords

theorem forEachBit_eq (base : Nat) {fuel bit word : Nat} (hw : word < 2 ^ fuel) :
    forEachBit base fuel bit word =
      ((List.range fuel).filter word.testBit).map (base + bit + ·) := by
  induction fuel generalizing bit word with
  | zero =>
    obtain rfl : word = 0 := by simpa using hw
    rfl
  | succ fuel ih =>
    by_cases h0 : word = 0
    · subst h0
      simp [forEachBit]
    have hhalf : word / 2 < 2 ^ fuel := by
      rw [pow_succ] at hw
      omega
    -- bit `0` decides the head; bit `i + 1` of `word` is bit `i` of `word / 2`
    have hsucc : word.testBit ∘ Nat.succ = (word / 2).testBit :=
      funext fun i => Nat.testBit_succ word i
    have hshift : (fun x => base + bit + x) ∘ Nat.succ = (fun x => base + (bit + 1) + x) := by
      funext x
      simp only [Function.comp, Nat.succ_eq_add_one]
      omega
    simp only [forEachBit, if_neg h0, ih hhalf, List.range_succ_eq_map, List.filter_cons,
      List.filter_map, hsucc, Nat.testBit_zero]
    by_cases hodd : word % 2 = 1
    · simp [hodd, List.map_map, hshift]
    · simp [List.map_map, hshift, show word % 2 = 0 by omega]

/-- Word `k` of a number holds its bits `wordBits * k` to `wordBits * k + 63`, so the outer
loop lists the set bits of the whole number in increasing order. -/
theorem forEachWords_eq (k : Nat) {ws : List Nat} (hws : ∀ w ∈ ws, w < 2 ^ wordBits) :
    forEachWords k ws =
      ((List.range (wordBits * ws.length)).filter (Nat.ofDigits (2 ^ wordBits) ws).testBit).map
        (k * wordBits + ·) := by
  induction ws generalizing k with
  | nil => rfl
  | cons w ws ih =>
    have hw : w < 2 ^ wordBits := hws w List.mem_cons_self
    have hlow : ((List.range wordBits).filter (Nat.ofDigits (2 ^ wordBits) (w :: ws)).testBit) =
        (List.range wordBits).filter w.testBit := by
      refine List.filter_congr fun j hj => ?_
      rw [testBit_ofDigits_cons hw, if_pos (List.mem_range.mp hj)]
    have hhigh : (Nat.ofDigits (2 ^ wordBits) (w :: ws)).testBit ∘ (wordBits + ·) =
        (Nat.ofDigits (2 ^ wordBits) ws).testBit := by
      funext j
      simp only [Function.comp, testBit_ofDigits_cons hw]
      rw [if_neg (by omega), Nat.add_sub_cancel_left]
    have hshift : (k * wordBits + ·) ∘ (wordBits + ·) = ((k + 1) * wordBits + ·) := by
      funext j
      simp only [Function.comp]
      ring
    rw [forEachWords, forEachBit_eq _ hw, ih (k + 1) fun w' hw' => hws w' (List.mem_cons_of_mem _ hw'),
      List.length_cons, Nat.mul_succ, Nat.add_comm (wordBits * ws.length), List.range_add,
      List.filter_append, List.map_append, hlow, List.filter_map, hhigh, List.map_map, hshift]
    simp

/-! ## The bitmap -/

/-- `rand.Intn(n)`: `draw % n` for the generator's next output `draw`, which covers every
value below `n`; panics unless `n > 0`. -/
def intn (draw : Nat) (n : Int) : Except String Nat :=
  if n ≤ 0 then .error "invalid argument to Intn" else .ok (draw % n.toNat)
attribute [grind] intn

/-- A scan loop of `randomScanStrategyWithOffset.AllocateBit`: the first position
`base + (start + i) % n`, `i < n`, whose bit is clear. -/
def scanClear (allocated base start n : Nat) : Option Nat :=
  ((List.range n).map fun i => base + (start + i) % n).find? fun pos => !allocated.testBit pos
attribute [grind] scanClear

/-- `randomScanStrategyWithOffset.AllocateBit`: a clear bit of `[offset, max)` from a random
start, else one of `[0, offset)`. -/
def allocateBit (offset draw₁ draw₂ allocated : Nat) (max count : Int) :
    Except String (Option Nat) := do
  if max ≤ count then return none
  let subrangeMax := max - offset
  let start ← intn draw₁ subrangeMax
  match scanClear allocated offset start subrangeMax.toNat with
  | some pos => return some pos
  | none =>
      let start ← intn draw₂ offset
      return scanClear allocated 0 start offset
attribute [grind] allocateBit

/-- `AllocationBitmap` with the strategy `NewAllocationMapWithOffset` gives it,
`randomScanStrategyWithOffset` at `offset`; the generator's outputs come with each call. -/
structure AllocationBitmap where
  offset : Nat
  max : Int
  rangeSpec : String
  count : Int
  allocated : Nat
  deriving DecidableEq, Repr

/-- `countBits` (`utils.go`). -/
def countBits (n : Nat) : Nat :=
  ((bigWords n).map onesCount64).sum
attribute [grind] countBits

namespace AllocationBitmap

/-- `NewAllocationMapWithOffset`. -/
def newAllocationMapWithOffset (max : Int) (rangeSpec : String) (offset : Nat) : AllocationBitmap :=
  ⟨offset, max, rangeSpec, 0, 0⟩
attribute [grind] newAllocationMapWithOffset

/-- `Allocate`: `true` when `offset` was free and is now reserved, `false` when it was
already reserved; an offset outside `[0, max)` is a returned error. -/
def allocate (r : AllocationBitmap) (offset : Int) : Except String (Bool × AllocationBitmap) :=
  if offset < 0 ∨ r.max ≤ offset then
    .error ("offset " ++ toString offset ++ " out of range [0," ++ toString r.max ++ "]")
  else if r.allocated.testBit offset.toNat then .ok (false, r)
  else .ok (true, { r with allocated := setBit r.allocated offset.toNat true, count := r.count + 1 })
attribute [grind] allocate

/-- `AllocateNext`: `none` for `(0, false, nil)`; an error is a panic of the strategy. -/
def allocateNext (r : AllocationBitmap) (draw₁ draw₂ : Nat) :
    Except String (Option (Nat × AllocationBitmap)) := do
  match ← allocateBit r.offset draw₁ draw₂ r.allocated r.max r.count with
  | none => return none
  | some next =>
      return some (next, { r with count := r.count + 1, allocated := setBit r.allocated next true })
attribute [grind] allocateNext

/-- `Release`: the error is the panic of `Bit` on a negative offset. -/
def release (r : AllocationBitmap) (offset : Int) : Except String AllocationBitmap := do
  if !(← bigBit r.allocated offset) then return r
  return { r with allocated := setBit r.allocated offset.toNat false, count := r.count - 1 }
attribute [grind] release

/-- `ForEach`: the offsets passed to the callback, in order. -/
def forEach (r : AllocationBitmap) : List Nat :=
  forEachWords 0 (bigWords r.allocated)
attribute [grind] forEach

/-- `Has`. -/
def has (r : AllocationBitmap) (offset : Int) : Except String Bool :=
  bigBit r.allocated offset

/-- `Free`. -/
def free (r : AllocationBitmap) : Int :=
  r.max - r.count
attribute [grind] free

/-- `Snapshot`. -/
def snapshot (r : AllocationBitmap) : String × List UInt8 :=
  (r.rangeSpec, bigBytes r.allocated)
attribute [grind] snapshot

/-- `Restore`. -/
def restore (r : AllocationBitmap) (rangeSpec : String) (data : List UInt8) :
    Except String AllocationBitmap :=
  if r.rangeSpec ≠ rangeSpec then .error "the provided range does not match the current range"
  else
    let allocated := setBytes data
    .ok { r with allocated, count := countBits allocated }
attribute [grind] restore

end AllocationBitmap

/-! ## Counting and listing the set bits -/

/-- Every set bit of a number lies in one of its words. -/
theorem lt_of_testBit (x : Nat) {i : Nat} (h : x.testBit i = true) :
    i < wordBits * (bigWords x).length := by
  by_contra hge
  have hlt : x < 2 ^ i := by
    calc x < (2 ^ wordBits) ^ (bigWords x).length :=
          Nat.lt_base_pow_length_digits (Nat.one_lt_two_pow (by decide))
      _ = 2 ^ (wordBits * (bigWords x).length) := (pow_mul 2 _ _).symm
      _ ≤ 2 ^ i := Nat.pow_le_pow_right (by decide) (by omega)
  rw [Nat.testBit_lt_two_pow hlt] at h
  exact Bool.false_ne_true h

/-- Filtering a longer range adds nothing when every element kept is below the shorter one. -/
theorem filter_range_of_le {p : Nat → Bool} {m m' : Nat} (hm : m ≤ m')
    (h : ∀ i, p i = true → i < m) : (List.range m').filter p = (List.range m).filter p := by
  obtain ⟨k, rfl⟩ := Nat.exists_eq_add_of_le hm
  rw [List.range_add, List.filter_append, List.filter_map]
  have hnone : (List.range k).filter (p ∘ (m + ·)) = [] :=
    List.filter_eq_nil_iff.mpr fun j _ hj => by have := h (m + j) hj; omega
  rw [hnone, List.map_nil, List.append_nil]

/-- The set bits of `x`, in increasing order, from any bound of them. -/
theorem filter_range_eq (x : Nat) {m : Nat} (h : ∀ i, x.testBit i = true → i < m) :
    (List.range (wordBits * (bigWords x).length)).filter x.testBit =
      (List.range m).filter x.testBit := by
  rw [← filter_range_of_le (le_max_left _ m) fun i hi => lt_of_testBit x hi,
    filter_range_of_le (le_max_right _ m) h]

theorem bigWords_lt (x : Nat) : ∀ w ∈ bigWords x, w < 2 ^ wordBits :=
  fun _ hw => Nat.digits_lt_base (Nat.one_lt_two_pow (by decide)) hw

/-- `ForEach` lists exactly the set bits, in increasing order. -/
theorem forEachWords_bigWords (x : Nat) {m : Nat} (h : ∀ i, x.testBit i = true → i < m) :
    forEachWords 0 (bigWords x) = (List.range m).filter x.testBit := by
  rw [forEachWords_eq 0 (bigWords_lt x), bigWords, Nat.ofDigits_digits, ← bigWords,
    filter_range_eq x h]
  simp

theorem length_forEachWords (k : Nat) {ws : List Nat} (hws : ∀ w ∈ ws, w < 2 ^ wordBits) :
    (forEachWords k ws).length = (ws.map onesCount64).sum := by
  induction ws generalizing k with
  | nil => rfl
  | cons w ws ih =>
    rw [forEachWords, List.length_append, forEachBit_eq _ (hws w List.mem_cons_self),
      ih (k + 1) fun w' hw' => hws w' (List.mem_cons_of_mem _ hw'), List.length_map,
      List.map_cons, List.sum_cons, onesCount64]

/-- `countBits` counts the set bits below any bound of them. -/
theorem countBits_eq (x : Nat) {m : Nat} (h : ∀ i, x.testBit i = true → i < m) :
    countBits x = ((List.range m).filter x.testBit).length := by
  rw [countBits, ← length_forEachWords 0 (bigWords_lt x), forEachWords_bigWords x h]

/-- Two predicates that differ at one element `i` of a list without duplicates, true for
the first and false for the second, keep one element more with the first. -/
theorem length_filter_of_eq_except {l : List Nat} {p q : Nat → Bool} {i : Nat} (hl : l.Nodup)
    (hi : i ∈ l) (hpq : ∀ j, j ≠ i → p j = q j) (hp : p i = true) (hq : q i = false) :
    (l.filter p).length = (l.filter q).length + 1 := by
  induction l with
  | nil => simp at hi
  | cons a l ih =>
    obtain ⟨ha, hl⟩ := List.nodup_cons.mp hl
    by_cases hai : a = i
    · subst hai
      have hrest : l.filter p = l.filter q :=
        List.filter_congr fun j hj => hpq j fun h => ha (h ▸ hj)
      simp [hp, hq, hrest]
    · have hil : i ∈ l := (List.mem_cons.mp hi).resolve_left (Ne.symm hai)
      rw [List.filter_cons, List.filter_cons, hpq a hai]
      split <;> simp [ih hl hil]

theorem length_filter_setBit_true {x i m : Nat} (hi : i < m) (hx : x.testBit i = false) :
    ((List.range m).filter (setBit x i true).testBit).length =
      ((List.range m).filter x.testBit).length + 1 :=
  length_filter_of_eq_except List.nodup_range (List.mem_range.mpr hi)
    (fun j hj => by simp [hj]) (by simp) hx

theorem length_filter_setBit_false {x i m : Nat} (hi : i < m) (hx : x.testBit i = true) :
    ((List.range m).filter (setBit x i false).testBit).length + 1 =
      ((List.range m).filter x.testBit).length :=
  (length_filter_of_eq_except List.nodup_range (List.mem_range.mpr hi)
    (fun j hj => by simp [hj]) hx (by simp)).symm

/-! ## The scans of the strategy -/

theorem intn_eq_ok {draw s : Nat} {n : Int} (h : intn draw n = .ok s) : 0 < n ∧ s < n.toNat := by
  unfold intn at h
  split_ifs at h with hn
  cases h
  exact ⟨by omega, Nat.mod_lt _ (by omega)⟩

/-- A scan returns a clear bit among the positions it visits. -/
theorem scanClear_some {a base start n p : Nat} (h : scanClear a base start n = some p) :
    base ≤ p ∧ p < base + n ∧ a.testBit p = false := by
  unfold scanClear at h
  obtain ⟨i, hi, rfl⟩ := List.mem_map.mp (List.mem_of_find?_eq_some h)
  have hclear := List.find?_some h
  have hlt : (start + i) % n < n := Nat.mod_lt _ (by have := List.mem_range.mp hi; omega)
  exact ⟨by omega, by omega, by simpa using hclear⟩

/-- A scan of `n` positions from any start visits every position of `[base, base + n)`. -/
theorem scanClear_isSome (a base start : Nat) {n q : Nat} (hq : q < n)
    (hclear : a.testBit (base + q) = false) : (scanClear a base start n).isSome := by
  unfold scanClear
  rw [List.find?_isSome]
  refine ⟨base + q, List.mem_map.mpr ⟨(q + (n - start % n)) % n, ?_, ?_⟩, by simp [hclear]⟩
  · exact List.mem_range.mpr (Nat.mod_lt _ (by omega))
  · -- `(start + i) % n = (start % n + (q + (n - start % n))) % n = (q + n) % n = q`
    have hs : start % n < n := Nat.mod_lt _ (by omega)
    have hsum : start % n + (q + (n - start % n)) = q + n := by omega
    rw [Nat.add_mod_mod, ← Nat.mod_add_mod, hsum, Nat.add_mod_right, Nat.mod_eq_of_lt hq]

/-- What `AllocateBit` returns is a clear bit below `max`. -/
theorem allocateBit_some {offset d₁ d₂ a p : Nat} {max count : Int}
    (h : allocateBit offset d₁ d₂ a max count = .ok (some p)) :
    (p : Int) < max ∧ a.testBit p = false := by
  unfold allocateBit at h
  split_ifs at h with hfull
  · cases h
  cases h₁ : intn d₁ (max - offset) with
  | error e => simp [h₁, bind, Except.bind] at h
  | ok start =>
    obtain ⟨hsub, -⟩ := intn_eq_ok h₁
    simp only [h₁, bind, Except.bind] at h
    cases hs₁ : scanClear a offset start (max - offset).toNat with
    | some pos =>
      -- a clear bit of the upper band `[offset, max)`
      simp only [hs₁, pure, Except.pure, Except.ok.injEq, Option.some.injEq] at h
      subst h
      obtain ⟨-, hlt, hclear⟩ := scanClear_some hs₁
      exact ⟨by omega, hclear⟩
    | none =>
      -- a clear bit of the lower band `[0, offset)`
      simp only [hs₁] at h
      cases h₂ : intn d₂ offset with
      | error e => simp [h₂] at h
      | ok start' =>
        simp only [h₂, pure, Except.pure, Except.ok.injEq] at h
        obtain ⟨-, hlt, hclear⟩ := scanClear_some h
        exact ⟨by omega, hclear⟩

/-- With `offset < max`, `AllocateBit` finds a clear bit whenever `[0, max)` has one and
`count < max`, whatever the generator draws. -/
theorem allocateBit_exists (d₁ d₂ : Nat) {offset a q : Nat} {max count : Int} (hcount : count < max)
    (hoff : (offset : Int) < max) (hq : (q : Int) < max) (hclear : a.testBit q = false) :
    ∃ p, allocateBit offset d₁ d₂ a max count = .ok (some p) := by
  have h₁ : intn d₁ (max - offset) = .ok (d₁ % (max - offset).toNat) := if_neg (by omega)
  unfold allocateBit
  simp only [if_neg (not_le.mpr hcount), h₁, bind, Except.bind]
  cases hs₁ : scanClear a offset (d₁ % (max - offset).toNat) (max - offset).toNat with
  | some pos => exact ⟨pos, rfl⟩
  | none =>
    by_cases hqo : offset ≤ q
    · -- the upper band holds `q`, so its scan cannot fail
      have hsome := scanClear_isSome a offset (d₁ % (max - offset).toNat)
        (show q - offset < (max - offset).toNat by omega)
        (by rw [Nat.add_sub_cancel' hqo]; exact hclear)
      rw [hs₁] at hsome
      cases hsome
    · have h₂ : intn d₂ offset = .ok (d₂ % offset) := if_neg (by omega)
      have hsome := scanClear_isSome a 0 (d₂ % offset)
        (show q < offset by omega) (by rw [Nat.zero_add]; exact hclear)
      obtain ⟨pos, hpos⟩ := Option.isSome_iff_exists.mp hsome
      exact ⟨pos, by simp [h₂, hpos, pure, Except.pure]⟩

/-! ## The invariant -/

namespace AllocationBitmap

variable {r r' : AllocationBitmap}

/-- The representation invariant: every set bit is an offset below `max`, and `count` is
their number. -/
structure Valid (r : AllocationBitmap) : Prop where
  below : ∀ i, r.allocated.testBit i = true → (i : Int) < r.max
  count : r.count = countBits r.allocated

theorem Valid.bound (hr : r.Valid) : ∀ i, r.allocated.testBit i = true → i < r.max.toNat :=
  fun i hi => by have := hr.below i hi; omega

theorem Valid.count_eq (hr : r.Valid) :
    r.count = ((List.range r.max.toNat).filter r.allocated.testBit).length := by
  rw [hr.count, countBits_eq _ hr.bound]

/-- Reserving a clear offset below `max` and counting it keeps the invariant. -/
theorem Valid.reserve (hr : r.Valid) {i : Nat} (hi : (i : Int) < r.max)
    (hclear : r.allocated.testBit i = false) :
    ({ r with allocated := setBit r.allocated i true, count := r.count + 1 } : AllocationBitmap).Valid := by
  have hbelow : ∀ j, (setBit r.allocated i true).testBit j = true → (j : Int) < r.max := by
    intro j hj
    rw [testBit_setBit] at hj
    split_ifs at hj with hji
    · exact hji ▸ hi
    · exact hr.below j hj
  refine ⟨hbelow, ?_⟩
  show r.count + 1 = (countBits (setBit r.allocated i true) : Int)
  rw [countBits_eq (m := r.max.toNat) _ fun j hj => by have := hbelow j hj; omega,
    length_filter_setBit_true (by omega) hclear, hr.count_eq]
  push_cast
  rfl

/-- Clearing a set offset and uncounting it keeps the invariant. -/
theorem Valid.unreserve (hr : r.Valid) {i : Nat} (hset : r.allocated.testBit i = true) :
    ({ r with allocated := setBit r.allocated i false, count := r.count - 1 } : AllocationBitmap).Valid := by
  have hbelow : ∀ j, (setBit r.allocated i false).testBit j = true → (j : Int) < r.max := by
    intro j hj
    rw [testBit_setBit] at hj
    split_ifs at hj with hji
    exact hr.below j hj
  refine ⟨hbelow, ?_⟩
  show r.count - 1 = (countBits (setBit r.allocated i false) : Int)
  have hsum := length_filter_setBit_false (hr.bound i hset) hset
  rw [countBits_eq (m := r.max.toNat) _ fun j hj => by have := hbelow j hj; omega,
    hr.count_eq, ← hsum]
  push_cast
  omega

theorem Valid.restore_snapshot (hr : r.Valid) : r.restore r.snapshot.1 r.snapshot.2 = .ok r := by
  unfold restore snapshot
  dsimp only
  rw [if_neg (not_not.mpr rfl), setBytes_bigBytes, ← hr.count]

theorem Valid.forEach_eq (hr : r.Valid) :
    r.forEach = (List.range r.max.toNat).filter r.allocated.testBit :=
  forEachWords_bigWords _ hr.bound

/-! ## The operations -/

theorem allocate_eq_ok_true (r : AllocationBitmap) (o : Int) :
    (∃ r', r.allocate o = .ok (true, r')) ↔
      0 ≤ o ∧ o < r.max ∧ r.allocated.testBit o.toNat = false := by
  unfold allocate
  split_ifs with hrange hset
  · simp only [exists_false, false_iff]
    omega
  · simp [hset]
  · simp only [Except.ok.injEq, Prod.mk.injEq, true_and, exists_eq', true_iff]
    exact ⟨by omega, by omega, by simpa using hset⟩

theorem allocate_bits {o : Int} (h : r.allocate o = .ok (true, r')) (j : Nat) :
    r'.allocated.testBit j = (j == o.toNat || r.allocated.testBit j) := by
  unfold allocate at h
  split_ifs at h <;> cases h
  rw [testBit_setBit]
  by_cases hj : j = o.toNat
  · simp [hj]
  · simp [hj]

theorem release_bits {o : Int} (ho : 0 ≤ o) :
    ∃ r', r.release o = .ok r' ∧
      ∀ j, r'.allocated.testBit j = (j != o.toNat && r.allocated.testBit j) := by
  unfold release
  simp only [bigBit, if_neg (not_lt.mpr ho), bind, Except.bind]
  by_cases hset : r.allocated.testBit o.toNat
  · refine ⟨{ r with allocated := setBit r.allocated o.toNat false, count := r.count - 1 },
      by simp [hset, pure, Except.pure], fun j => ?_⟩
    by_cases hj : j = o.toNat <;> simp [hj]
  · refine ⟨r, by simp [hset, pure, Except.pure], fun j => ?_⟩
    by_cases hj : j = o.toNat
    · subst hj
      simpa using hset
    · simp [hj]

/-- What `AllocateNext` does when it cannot panic: reserve a clear offset below `max` when
`Free() > 0`, and report `false` otherwise. -/
def AllocateNextSpec (r : AllocationBitmap) (draw₁ draw₂ : Nat) : Prop :=
  if 0 < r.free then
    ∃ p : Nat, (p : Int) < r.max ∧ r.allocated.testBit p = false ∧
      r.allocateNext draw₁ draw₂ =
        .ok (some (p, { r with count := r.count + 1, allocated := setBit r.allocated p true }))
  else r.allocateNext draw₁ draw₂ = .ok none
attribute [grind] AllocateNextSpec

/-- With `Free() ≤ 0` the strategy reports failure before drawing anything. -/
theorem allocateNext_of_free_nonpos (hfree : r.free ≤ 0) (draw₁ draw₂ : Nat) :
    r.allocateNext draw₁ draw₂ = .ok none := by
  have hnone : allocateBit r.offset draw₁ draw₂ r.allocated r.max r.count = .ok none := by
    unfold allocateBit
    rw [if_pos (by unfold free at hfree; omega)]
    rfl
  simp [AllocationBitmap.allocateNext, hnone, bind, Except.bind, pure, Except.pure]

theorem Valid.allocateNext (hr : r.Valid) (hoff : (r.offset : Int) < r.max) (draw₁ draw₂ : Nat) :
    r.AllocateNextSpec draw₁ draw₂ := by
  unfold AllocateNextSpec free
  split_ifs with hfree
  · -- fewer than `max` bits are set, so `[0, max)` has a clear one
    have hlt : ((List.range r.max.toNat).filter r.allocated.testBit).length <
        (List.range r.max.toNat).length := by
      rw [List.length_range]
      have := hr.count_eq
      omega
    obtain ⟨q, hq, hclear⟩ := List.length_filter_lt_length_iff_exists.mp hlt
    obtain ⟨p, hp⟩ := allocateBit_exists draw₁ draw₂ (show r.count < r.max by omega) hoff
      (show (q : Int) < r.max by have := List.mem_range.mp hq; omega)
      (show r.allocated.testBit q = false by simpa using hclear)
    obtain ⟨hpmax, hpclear⟩ := allocateBit_some hp
    refine ⟨p, hpmax, hpclear, ?_⟩
    simp [AllocationBitmap.allocateNext, hp, bind, Except.bind, pure, Except.pure]
  · exact allocateNext_of_free_nonpos (by unfold free; omega) draw₁ draw₂

/-! ## Runs of the bitmap -/

/-- The calls a run makes; `allocateNext` carries the two outputs of the generator the
strategy may draw, and `restoreSnapshot` is `Restore(Snapshot())`. -/
inductive Event
  | allocate (offset : Int)
  | allocateNext (draw₁ draw₂ : Nat)
  | release (offset : Int)
  | restoreSnapshot

/-- The state after a call that returns, with or without an error; `none` when it panics. -/
def step (r : AllocationBitmap) : Event → Option AllocationBitmap
  | .allocate offset =>
      match r.allocate offset with
      | .ok (_, r') => some r'
      | .error _ => some r
  | .allocateNext draw₁ draw₂ =>
      match r.allocateNext draw₁ draw₂ with
      | .ok (some (_, r')) => some r'
      | .ok none => some r
      | .error _ => none
  | .release offset => (r.release offset).toOption
  | .restoreSnapshot => (r.restore r.snapshot.1 r.snapshot.2).toOption
attribute [grind] step

/-- Runs start from `NewAllocationMapWithOffset(max, rangeSpec, offset)`. -/
def Init (max : Int) (rangeSpec : String) (offset : Nat) (r : AllocationBitmap) : Prop :=
  r = newAllocationMapWithOffset max rangeSpec offset
attribute [grind] Init

def Step (r : AllocationBitmap) (ev : Event) (r' : AllocationBitmap) : Prop :=
  r.step ev = some r'
attribute [grind] Step

theorem valid_newAllocationMapWithOffset (max : Int) (rangeSpec : String) (offset : Nat) :
    (newAllocationMapWithOffset max rangeSpec offset).Valid :=
  ⟨fun i hi => by simp [newAllocationMapWithOffset] at hi, rfl⟩

/-- Every call keeps the invariant, `max` and the strategy's `offset`; one case per call. -/
theorem Valid.step (hr : r.Valid) {ev : Event} (h : r.step ev = some r') :
    r'.Valid ∧ r'.max = r.max ∧ r'.offset = r.offset := by
  cases ev with
  | allocate o =>
    simp only [AllocationBitmap.step] at h
    unfold allocate at h
    split_ifs at h with hrange hset <;> cases h
    · exact ⟨hr, rfl, rfl⟩
    · exact ⟨hr, rfl, rfl⟩
    · exact ⟨hr.reserve (by omega) (by simpa using hset), rfl, rfl⟩
  | allocateNext draw₁ draw₂ =>
    simp only [AllocationBitmap.step] at h
    split at h
    · rename_i p r'' hnext
      cases h
      unfold AllocationBitmap.allocateNext at hnext
      cases hbit : allocateBit r.offset draw₁ draw₂ r.allocated r.max r.count with
      | error e => simp [hbit, bind, Except.bind] at hnext
      | ok res =>
        obtain _ | p' := res
        · simp [hbit, bind, Except.bind, pure, Except.pure] at hnext
        · simp only [hbit, bind, Except.bind, pure, Except.pure, Except.ok.injEq,
            Option.some.injEq, Prod.mk.injEq] at hnext
          obtain ⟨rfl, rfl⟩ := hnext
          obtain ⟨hlt, hclear⟩ := allocateBit_some hbit
          exact ⟨hr.reserve hlt hclear, rfl, rfl⟩
    · cases h
      exact ⟨hr, rfl, rfl⟩
    · cases h
  | release o =>
    simp only [AllocationBitmap.step] at h
    unfold release bigBit at h
    split_ifs at h with hneg
    · cases h
    · by_cases hset : r.allocated.testBit o.toNat
      · simp [hset, bind, Except.bind, pure, Except.pure, Except.toOption] at h
        subst h
        exact ⟨hr.unreserve hset, rfl, rfl⟩
      · simp [hset, bind, Except.bind, pure, Except.pure, Except.toOption] at h
        subst h
        exact ⟨hr, rfl, rfl⟩
  | restoreSnapshot =>
    simp only [AllocationBitmap.step, hr.restore_snapshot, Except.toOption,
      Option.some.injEq] at h
    exact h ▸ ⟨hr, rfl, rfl⟩

theorem valid_inductive (max : Int) (rangeSpec : String) (offset : Nat) :
    Transition.Inductive (Init max rangeSpec offset) Step
      fun r => r.Valid ∧ r.max = max ∧ r.offset = offset :=
  ⟨fun _ h => h ▸ ⟨valid_newAllocationMapWithOffset max rangeSpec offset, rfl, rfl⟩,
    fun _ _ _ hr h => by
      obtain ⟨hvalid, hmax, hoffset⟩ := hr.1.step h
      exact ⟨hvalid, hmax.trans hr.2.1, hoffset.trans hr.2.2⟩⟩

/-- What a caller of the bitmap may rely on in a state: `count` is the number of set bits,
all below `max`, `Free()` lies in `[0, max]`, `ForEach` lists the set bits in order,
`Restore(Snapshot())` gives the state back, `Allocate` and `Release` change exactly the bit
named, and with `offset < max` `AllocateNext` reserves one clear bit exactly when
`Free() > 0`. -/
structure Sound (r : AllocationBitmap) : Prop where
  count_eq : r.count = ((List.range r.max.toNat).filter r.allocated.testBit).length
  below : ∀ i, r.allocated.testBit i = true → (i : Int) < r.max
  free_nonneg : 0 ≤ r.free
  free_le : r.free ≤ r.max
  forEach_eq : r.forEach = (List.range r.max.toNat).filter r.allocated.testBit
  restore_snapshot : r.restore r.snapshot.1 r.snapshot.2 = .ok r
  allocate_iff : ∀ o, (∃ r', r.allocate o = .ok (true, r')) ↔
    0 ≤ o ∧ o < r.max ∧ r.allocated.testBit o.toNat = false
  allocate_bits : ∀ o r', r.allocate o = .ok (true, r') →
    ∀ j, r'.allocated.testBit j = (j == o.toNat || r.allocated.testBit j)
  release_bits : ∀ o, 0 ≤ o → ∃ r', r.release o = .ok r' ∧
    ∀ j, r'.allocated.testBit j = (j != o.toNat && r.allocated.testBit j)
  allocateNext : (r.offset : Int) < r.max → ∀ draw₁ draw₂, r.AllocateNextSpec draw₁ draw₂

theorem Valid.sound (hr : r.Valid) (hmax : 0 ≤ r.max) : r.Sound := by
  have hcount := hr.count_eq
  have hle : ((List.range r.max.toNat).filter r.allocated.testBit).length ≤ r.max.toNat := by
    simpa using List.length_filter_le r.allocated.testBit (List.range r.max.toNat)
  exact ⟨hcount, hr.below, by unfold free; omega, by unfold free; omega, hr.forEach_eq,
    hr.restore_snapshot, allocate_eq_ok_true r, fun _ _ h => allocate_bits h,
    fun _ ho => release_bits ho, hr.allocateNext⟩

/-- In every state reachable from `NewAllocationMapWithOffset(max, rangeSpec, offset)` with
`max ≥ 0`, the bitmap is sound. -/
theorem allocationBitmap_sound {max : Int} {rangeSpec : String} {offset : Nat} (hmax : 0 ≤ max)
    {r : AllocationBitmap}
    (hr : Transition.Reachable (Init max rangeSpec offset) Step r) : r.Sound := by
  obtain ⟨hvalid, rfl, -⟩ := (valid_inductive max rangeSpec offset).reachable hr
  exact hvalid.sound hmax

/-- The state after `Allocate(1)` on a bitmap of two offsets. -/
theorem allocationBitmap_sound_after_allocate :
    (0 : Int) ≤ 2 ∧ (⟨0, 2, "10.0.0.0/30", 1, 2⟩ : AllocationBitmap).Sound :=
  ⟨by decide, @allocationBitmap_sound 2 "10.0.0.0/30" 0 (by decide) _
    (.step (.init rfl) (show AllocationBitmap.step _ (.allocate 1) = some _ by rfl))⟩

/-- With `offset = max` the upper band `[offset, max)` is empty, and the first
`AllocateNext` calls `rand.Intn(0)`, which panics, although `Free()` is `max`. -/
theorem allocateNext_panics_at_offset_max :
    (newAllocationMapWithOffset 1 "10.0.0.0/31" 1).free = 1 ∧
      ∀ draw₁ draw₂ : Nat, (newAllocationMapWithOffset 1 "10.0.0.0/31" 1).allocateNext draw₁ draw₂ =
        .error "invalid argument to Intn" :=
  ⟨rfl, fun _ _ => rfl⟩

end AllocationBitmap

end Alloc
end Kubernetes
