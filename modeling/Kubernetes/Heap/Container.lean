import Mathlib

/-!
# `container/heap`

Go's `container/heap` keeps a binary min-heap in any value that implements `heap.Interface`
(`Len`, `Less`, `Swap`, `Push`, `Pop`).  The heap functions only compare and swap positions;
`Push` and `Pop` of the interface append a position and take off the last one.  `up` and `down`
are the two sifts, `push`, `pop`, `fix` and `remove` the functions callers use.  Go's `int`
positions are natural numbers here: the checks of `down` against an overflowed `2*i + 1` and
the panics of `Pop` on an empty heap have no counterpart.

The order is read through a key at each position (`Lawful`): `Less i j` compares the keys,
`Swap` exchanges two positions' keys and nothing else, `Push` and `Pop` keep the keys of the
positions they leave.  `IsHeap key s n` says the first `n` positions are heap-ordered.  The
sifts are proved from hole invariants: `Hole` (every parent and child pair off the hole in
order, and the parent of the hole at or before its children), `UpHole` adding the pairs below
the hole and `DownHole` the pair above it.  A property that every swap keeps is kept by every
function (`up_preserves`, `downFrom_preserves`), which is how a caller carries its own
invariants, such as index fields that `Swap` writes, through the sifts.
-/

namespace Kubernetes
namespace Heap

universe u v w

/-- `heap.Interface`, on a value of type `σ` holding elements of type `α`. -/
structure Interface (σ : Type u) (α : Type v) where
  len : σ → Nat
  less : σ → Nat → Nat → Bool
  swap : σ → Nat → Nat → σ
  push : σ → α → σ
  pop : σ → σ × α

/-- The parent of position `j`, `(j - 1) / 2`; position `0` is its own parent, as in Go. -/
def parent (j : Nat) : Nat := (j - 1) / 2
attribute [grind] parent

theorem parent_lt {j : Nat} (hj : 0 < j) : parent j < j := by
  unfold parent
  omega

theorem parent_le (j : Nat) : parent j ≤ j := by
  unfold parent
  omega

/-- The children of `i` are `2 * i + 1` and `2 * i + 2`. -/
theorem parent_eq_iff {c i : Nat} (hc : 0 < c) : parent c = i ↔ c = 2 * i + 1 ∨ c = 2 * i + 2 := by
  unfold parent
  omega

/-- The `Swap` of a slice, read at any position: the read of the other position of the
pair. -/
theorem getD_swap {β : Type v} {l : List β} {i j : Nat} (hi : i < l.length) (hj : j < l.length)
    (c : Nat) (d : β) : (l.swap i j).getD c d = l.getD (Equiv.swap i j c) d := by
  by_cases hc : c < l.length
  · rw [List.getD_eq_getElem _ _ (by rwa [List.length_swap]), List.getElem_swap]
    by_cases hci : c = i
    · subst hci
      rw [dif_pos ⟨rfl, hj⟩, Equiv.swap_apply_left, List.getD_eq_getElem _ _ hj]
    · by_cases hcj : c = j
      · subst hcj
        rw [dif_neg (fun hh => hci hh.1), dif_pos ⟨rfl, hi⟩, Equiv.swap_apply_right,
          List.getD_eq_getElem _ _ hi]
      · rw [dif_neg (fun hh => hci hh.1), dif_neg (fun hh => hcj hh.1),
          Equiv.swap_apply_of_ne_of_ne hci hcj, List.getD_eq_getElem _ _ hc]
  · have hci : c ≠ i := fun he => hc (he ▸ hi)
    have hcj : c ≠ j := fun he => hc (he ▸ hj)
    rw [Equiv.swap_apply_of_ne_of_ne hci hcj, List.getD_eq_default _ _ (by rw [List.length_swap]; omega),
      List.getD_eq_default _ _ (by omega)]

variable {σ : Type u} {α : Type v} (h : Interface σ α)

/-- `up(h, j)`: move the element at `j` towards the root while it is less than its parent. -/
def up (s : σ) (j : Nat) : σ :=
  if parent j = j ∨ h.less s j (parent j) = false then s
  else up (h.swap s (parent j) j) (parent j)
termination_by j
decreasing_by
  rename_i hstop
  have hne : parent j ≠ j := fun he => hstop (Or.inl he)
  have hle := parent_le j
  omega
attribute [grind] up

/-- The child `down` looks at from `i` among the first `n` positions: the right one when it is
there and less than the left one. -/
def minChild (s : σ) (i n : Nat) : Nat :=
  if 2 * i + 2 < n ∧ h.less s (2 * i + 2) (2 * i + 1) = true then 2 * i + 2 else 2 * i + 1
attribute [grind] minChild

/-- The loop of `down(h, i0, n)` from position `i`: the state it leaves and the position where
it stops. -/
def downFrom (s : σ) (i n : Nat) : σ × Nat :=
  if n ≤ 2 * i + 1 then (s, i)
  else if h.less s (minChild h s i n) i = false then (s, i)
  else downFrom (h.swap s i (minChild h s i n)) (minChild h s i n) n
termination_by n - i
decreasing_by
  unfold minChild
  split_ifs <;> omega
attribute [grind] downFrom

/-- `down(h, i0, n)`: the state, and whether the element at `i0` moved. -/
def down (s : σ) (i0 n : Nat) : σ × Bool :=
  ((downFrom h s i0 n).1, decide (i0 < (downFrom h s i0 n).2))
attribute [grind] down

/-- `heap.Push`. -/
def push (s : σ) (x : α) : σ :=
  up h (h.push s x) (h.len (h.push s x) - 1)
attribute [grind] push

/-- `heap.Pop`: the least element goes to the last position, and `Pop` of the interface takes
it. -/
def pop (s : σ) : σ × α :=
  h.pop (down h (h.swap s 0 (h.len s - 1)) 0 (h.len s - 1)).1
attribute [grind] pop

/-- `heap.Fix`: re-establish the order after the element at `i` changed. -/
def fix (s : σ) (i : Nat) : σ :=
  if (down h s i (h.len s)).2 then (down h s i (h.len s)).1 else up h (down h s i (h.len s)).1 i
attribute [grind] fix

/-- `heap.Remove`: the element at `i` goes to the last position, the one from there is sifted,
and `Pop` of the interface takes the last. -/
def remove (s : σ) (i : Nat) : σ × α :=
  if h.len s - 1 ≠ i then
    let r := down h (h.swap s i (h.len s - 1)) i (h.len s - 1)
    h.pop (if r.2 then r.1 else up h r.1 i)
  else h.pop s
attribute [grind] remove

/-! ## What the functions keep -/

/-- A property kept by every swap of positions below `m` is kept by `up` from below `m`. -/
theorem up_preserves (P : σ → Prop) {m : Nat}
    (hP : ∀ t a b, a < m → b < m → P t → P (h.swap t a b)) :
    ∀ (s : σ) (j : Nat), j < m → P s → P (up h s j) := by
  intro s j
  induction s, j using up.induct h with
  | case1 s j hstop =>
      intro _ hs
      rw [up, if_pos hstop]
      exact hs
  | case2 s j hstop ih =>
      intro hj hs
      rw [up, if_neg hstop]
      have hpj : parent j < m := Nat.lt_of_le_of_lt (parent_le j) hj
      exact ih hpj (hP _ _ _ hpj hj hs)

/-- A property kept by every swap of positions below `n` is kept by the loop of `down`. -/
theorem downFrom_preserves (P : σ → Prop) {n : Nat}
    (hP : ∀ t a b, a < n → b < n → P t → P (h.swap t a b)) :
    ∀ (s : σ) (i : Nat), P s → P (downFrom h s i n).1 := by
  intro s i
  fun_induction downFrom h s i n with
  | case1 s i hn =>
      intro hs
      exact hs
  | case2 s i hn hless =>
      intro hs
      exact hs
  | case3 s i hn hless ih =>
      intro hs
      have hc : minChild h s i n < n := by
        unfold minChild
        split_ifs <;> omega
      exact ih (hP _ _ _ (by omega) hc hs)

/-- A property kept by every swap of positions in range is kept by `heap.Fix`. -/
theorem fix_preserves (P : σ → Prop) {s : σ} {i : Nat} (hi : i < h.len s)
    (hP : ∀ t a b, a < h.len s → b < h.len s → P t → P (h.swap t a b)) (hs : P s) :
    P (fix h s i) := by
  have hdown : P (downFrom h s i (h.len s)).1 := downFrom_preserves h P hP s i hs
  unfold fix down
  split
  · exact hdown
  · exact up_preserves h P hP _ i hi hdown

/-- A property that the first swap of `heap.Pop` sets up and that every swap below the last
position keeps holds of the state `heap.Pop` hands to `Pop`. -/
theorem pop_preserves (Q : σ → Prop) {s : σ} (hfirst : Q (h.swap s 0 (h.len s - 1)))
    (hQ : ∀ t a b, a < h.len s - 1 → b < h.len s - 1 → Q t → Q (h.swap t a b)) :
    ∃ t, pop h s = h.pop t ∧ Q t :=
  ⟨_, rfl, downFrom_preserves h Q hQ _ 0 hfirst⟩

/-- A property that the first swap of `heap.Remove` sets up (or the state has, when `i` is the
last position) and that every swap below the last position keeps holds of the state
`heap.Remove` hands to `Pop`. -/
theorem remove_preserves (Q : σ → Prop) {s : σ} {i : Nat} (hi : i < h.len s)
    (hlast : h.len s - 1 = i → Q s) (hfirst : h.len s - 1 ≠ i → Q (h.swap s i (h.len s - 1)))
    (hQ : ∀ t a b, a < h.len s - 1 → b < h.len s - 1 → Q t → Q (h.swap t a b)) :
    ∃ t, remove h s i = h.pop t ∧ Q t := by
  unfold remove
  split_ifs with hne
  · have hdown : Q (downFrom h (h.swap s i (h.len s - 1)) i (h.len s - 1)).1 :=
      downFrom_preserves h Q hQ _ i (hfirst hne)
    refine ⟨_, rfl, ?_⟩
    -- `down` moved the element, or `up` takes over from where it stopped
    split
    · exact hdown
    · exact up_preserves h Q hQ _ i (by omega) hdown
  · exact ⟨s, rfl, hlast (by omega)⟩

/-- The loop of `down` stops at or after where it starts. -/
theorem le_downFrom (n : Nat) : ∀ (s : σ) (i : Nat), i ≤ (downFrom h s i n).2 := by
  intro s i
  fun_induction downFrom h s i n with
  | case1 s i hn => exact Nat.le_refl i
  | case2 s i hn hless => exact Nat.le_refl i
  | case3 s i hn hless ih =>
      have hc : i < minChild h s i n := by
        unfold minChild
        split_ifs <;> omega
      exact Nat.le_trans (Nat.le_of_lt hc) ih

/-- `up` at the root does nothing. -/
theorem up_zero (s : σ) : up h s 0 = s := by
  have hroot : parent 0 = 0 ∨ h.less s 0 (parent 0) = false := Or.inl rfl
  rw [up, if_pos hroot]

/-- The loop of `down` from a position with no child among the first `n` does nothing. -/
theorem downFrom_of_le {s : σ} {i n : Nat} (hn : n ≤ 2 * i + 1) : downFrom h s i n = (s, i) := by
  rw [downFrom, if_pos hn]

/-- `heap.Push` onto an empty heap is `Push` of the interface. -/
theorem push_of_len_eq_one {s : σ} {x : α} (hs : h.len (h.push s x) = 1) :
    push h s x = h.push s x := by
  rw [push, hs]
  exact up_zero h _

/-- `heap.Pop` of a heap of at most one element is `Pop` of the interface, after the swap of
the first position with itself. -/
theorem pop_of_len_le_one {s : σ} (hs : h.len s ≤ 1) : pop h s = h.pop (h.swap s 0 0) := by
  have hlast : h.len s - 1 = 0 := by omega
  rw [pop, hlast, down, downFrom_of_le h (Nat.zero_le _)]

/-! ## The order -/

variable {κ : Type w} [LinearOrder κ]

/-- What the heap functions need of an `Interface`, read through the key `key s c` at each
position `c`: `Less` compares keys, `Swap` exchanges two positions' keys and keeps the length,
`Push` adds a position and `Pop` takes off the last, both keeping the keys of the others. -/
structure Lawful (key : σ → Nat → κ) : Prop where
  less : ∀ s i j, i < h.len s → j < h.len s → h.less s i j = decide (key s i < key s j)
  len_swap : ∀ s i j, h.len (h.swap s i j) = h.len s
  key_swap : ∀ s i j, i < h.len s → j < h.len s → ∀ c,
    key (h.swap s i j) c = key s (Equiv.swap i j c)
  len_push : ∀ s x, h.len (h.push s x) = h.len s + 1
  key_push : ∀ s x c, c < h.len s → key (h.push s x) c = key s c
  len_pop : ∀ s, h.len (h.pop s).1 = h.len s - 1
  key_pop : ∀ s c, c + 1 < h.len s → key (h.pop s).1 c = key s c

/-- The first `n` positions are heap-ordered: no child's key is below its parent's. -/
def IsHeap (key : σ → Nat → κ) (s : σ) (n : Nat) : Prop :=
  ∀ c, 0 < c → c < n → ¬ key s c < key s (parent c)
attribute [grind] IsHeap

/-- Every parent and child pair among the first `n` positions that does not touch `i` is in
order, and the parent of `i` is at or before the children of `i`. -/
structure Hole (key : σ → Nat → κ) (s : σ) (n i : Nat) : Prop where
  off : ∀ c, 0 < c → c < n → c ≠ i → parent c ≠ i → ¬ key s c < key s (parent c)
  grand : 0 < i → ∀ c, 0 < c → c < n → parent c = i → ¬ key s c < key s (parent i)

/-- A hole whose children are in order with it: what `up` starts from. -/
structure UpHole (key : σ → Nat → κ) (s : σ) (n i : Nat) : Prop extends Hole key s n i where
  below : ∀ c, 0 < c → c < n → parent c = i → ¬ key s c < key s i

/-- A hole in order with its parent: what the loop of `down` starts from. -/
structure DownHole (key : σ → Nat → κ) (s : σ) (n i : Nat) : Prop extends Hole key s n i where
  above : 0 < i → ¬ key s i < key s (parent i)

variable {h} {key : σ → Nat → κ}

section Lawful

variable (hl : Lawful h key)
include hl

theorem Lawful.key_swap_left {s : σ} {i j : Nat} (hi : i < h.len s) (hj : j < h.len s) :
    key (h.swap s i j) i = key s j := by
  rw [hl.key_swap s i j hi hj, Equiv.swap_apply_left]

theorem Lawful.key_swap_right {s : σ} {i j : Nat} (hi : i < h.len s) (hj : j < h.len s) :
    key (h.swap s i j) j = key s i := by
  rw [hl.key_swap s i j hi hj, Equiv.swap_apply_right]

theorem Lawful.key_swap_of_ne {s : σ} {i j c : Nat} (hi : i < h.len s) (hj : j < h.len s)
    (hci : c ≠ i) (hcj : c ≠ j) : key (h.swap s i j) c = key s c := by
  rw [hl.key_swap s i j hi hj, Equiv.swap_apply_of_ne_of_ne hci hcj]

theorem Lawful.len_up (s : σ) {j : Nat} (hj : j < h.len s) : h.len (up h s j) = h.len s :=
  up_preserves h (fun t => h.len t = h.len s) (fun t a b _ _ ht => (hl.len_swap t a b).trans ht)
    s j hj rfl

theorem Lawful.len_downFrom (s : σ) (i n : Nat) : h.len (downFrom h s i n).1 = h.len s :=
  downFrom_preserves h (n := n) (fun t => h.len t = h.len s)
    (fun t a b _ _ ht => (hl.len_swap t a b).trans ht) s i rfl

/-- The loop of `down` bounded by `n` leaves the keys from `n` on as they were. -/
theorem Lawful.key_downFrom_of_le {s : σ} {n : Nat} (hn : n ≤ h.len s) (i : Nat) {c : Nat}
    (hc : n ≤ c) : key (downFrom h s i n).1 c = key s c := by
  refine (downFrom_preserves h (n := n) (fun t => h.len t = h.len s ∧ key t c = key s c)
    (fun t a b ha hb ht => ⟨(hl.len_swap t a b).trans ht.1, ?_⟩) s i ⟨rfl, rfl⟩).2
  rw [hl.key_swap_of_ne (by omega) (by omega) (by omega) (by omega)]
  exact ht.2

/-- The child `down` picks is at or before both children. -/
theorem Lawful.minChild_min {s : σ} {i n c : Nat} (hn : n ≤ h.len s) (hc0 : 0 < c)
    (hcn : c < n) (hci : parent c = i) : ¬ key s c < key s (minChild h s i n) := by
  have hcases := (parent_eq_iff hc0).mp hci
  unfold minChild
  split_ifs with hright
  · -- the right child is less than the left one
    have hlt : key s (2 * i + 2) < key s (2 * i + 1) := by
      have := hright.2
      rw [hl.less s _ _ (by omega) (by omega)] at this
      exact of_decide_eq_true this
    rcases hcases with rfl | rfl
    · exact lt_asymm hlt
    · exact lt_irrefl _
  · rcases hcases with rfl | rfl
    · exact lt_irrefl _
    · -- the right child is there and not less than the left one
      have hge : h.less s (2 * i + 2) (2 * i + 1) = false := by
        cases hb : h.less s (2 * i + 2) (2 * i + 1)
        · rfl
        · exact absurd ⟨hcn, hb⟩ hright
      rw [hl.less s _ _ (by omega) (by omega)] at hge
      exact of_decide_eq_false hge

end Lawful

theorem minChild_parent (s : σ) (i n : Nat) : parent (minChild h s i n) = i := by
  unfold minChild parent
  split_ifs <;> omega

theorem lt_minChild (s : σ) (i n : Nat) : i < minChild h s i n := by
  unfold minChild
  split_ifs <;> omega

theorem minChild_lt {s : σ} {i n : Nat} (hn : 2 * i + 1 < n) : minChild h s i n < n := by
  unfold minChild
  split_ifs <;> omega

/-! ### The holes -/

/-- A heap has a hole anywhere. -/
theorem IsHeap.hole {s : σ} {n : Nat} (hs : IsHeap key s n) (i : Nat) : Hole key s n i where
  off c hc0 hcn _ _ := hs c hc0 hcn
  grand hi0 c hc0 hcn hci := by
    -- the parent of `i` is at or before `i`, and `i` at or before its child `c`
    have hic : i < c := hci ▸ parent_lt hc0
    have hci' := hs c hc0 hcn
    rw [hci] at hci'
    exact fun hlt => hci' (lt_of_lt_of_le hlt (not_lt.mp (hs i hi0 (by omega))))

/-- The root of a heap is at or before every position of it. -/
theorem IsHeap.root_le {s : σ} {n : Nat} (hs : IsHeap key s n) :
    ∀ c, c < n → ¬ key s c < key s 0 := by
  intro c
  induction c using Nat.strongRecOn with
  | _ c ih =>
      intro hcn
      rcases Nat.eq_zero_or_pos c with rfl | hc0
      · exact lt_irrefl _
      · have hp := parent_lt hc0
        exact fun hlt => ih (parent c) hp (by omega)
          (lt_of_le_of_lt (not_lt.mp (hs c hc0 hcn)) hlt)

/-- Changing the key at `i` of a heap, and no other among the first `n`, leaves a hole at
`i`. -/
theorem IsHeap.hole_of_key_eq {s t : σ} {n i : Nat} (hs : IsHeap key s n)
    (heq : ∀ c, c < n → c ≠ i → key t c = key s c) : Hole key t n i where
  off c hc0 hcn hci hpi := by
    rw [heq c hcn hci, heq (parent c) (Nat.lt_of_le_of_lt (parent_le c) hcn) hpi]
    exact hs c hc0 hcn
  grand hi0 c hc0 hcn hci := by
    have hic : i < c := hci ▸ parent_lt hc0
    have hpi : parent i ≠ i := fun he => absurd (parent_lt hi0) (by omega)
    rw [heq c hcn (by omega), heq (parent i) (by have := parent_le i; omega) hpi]
    exact (hs.hole i).grand hi0 c hc0 hcn hci

/-- `up` stops in a heap when the hole is the root or not less than its parent. -/
theorem UpHole.isHeap {s : σ} {n j : Nat} (o : UpHole key s n j)
    (hstop : 0 < j → ¬ key s j < key s (parent j)) : IsHeap key s n := by
  intro c hc0 hcn
  by_cases hcj : c = j
  · subst hcj
    exact hstop hc0
  · by_cases hpc : parent c = j
    · rw [hpc]
      exact o.below c hc0 hcn hpc
    · exact o.off c hc0 hcn hcj hpc

/-- The loop of `down` stops in a heap when no child of the hole is less than it. -/
theorem DownHole.isHeap {s : σ} {n i : Nat} (o : DownHole key s n i)
    (hstop : ∀ c, 0 < c → c < n → parent c = i → ¬ key s c < key s i) : IsHeap key s n := by
  intro c hc0 hcn
  by_cases hci : c = i
  · subst hci
    exact o.above hc0
  · by_cases hpc : parent c = i
    · rw [hpc]
      exact hstop c hc0 hcn hpc
    · exact o.off c hc0 hcn hci hpc

/-- One turn of `up`: swapping the hole with its parent, which it is less than, moves the hole
to the parent. -/
theorem UpHole.swap (hl : Lawful h key) {s : σ} {n j : Nat} (o : UpHole key s n j) (hj0 : 0 < j)
    (hjn : j < n) (hn : n ≤ h.len s) (hlt : key s j < key s (parent j)) :
    UpHole key (h.swap s (parent j) j) n (parent j) := by
  have hpj : parent j < j := parent_lt hj0
  have kp := hl.key_swap_left (s := s) (i := parent j) (j := j) (by omega) (by omega)
  have kj := hl.key_swap_right (s := s) (i := parent j) (j := j) (by omega) (by omega)
  have ko : ∀ c, c ≠ parent j → c ≠ j → key (h.swap s (parent j) j) c = key s c :=
    fun c hcp hcj => hl.key_swap_of_ne (by omega) (by omega) hcp hcj
  -- a child of the parent other than `j` is at or after the parent
  have hsib : ∀ c, 0 < c → c < n → c ≠ j → parent c = parent j → ¬ key s c < key s (parent j) :=
    fun c hc0 hcn hcj hcp => by
      have := o.off c hc0 hcn hcj (by omega)
      rwa [hcp] at this
  refine ⟨⟨fun c hc0 hcn hcp hpc => ?off, fun hp0 c hc0 hcn hcpar => ?grand⟩,
    fun c hc0 hcn hcpar => ?below⟩
  case off =>
    have hcj : c ≠ j := fun he => hpc (he ▸ rfl)
    rw [ko c hcp hcj]
    by_cases hpcj : parent c = j
    · rw [hpcj, kj]
      exact o.grand hj0 c hc0 hcn hpcj
    · rw [ko (parent c) hpc hpcj]
      exact o.off c hc0 hcn hcj hpcj
  case grand =>
    have hpp : parent (parent j) < parent j := parent_lt hp0
    have hup : ¬ key s (parent j) < key s (parent (parent j)) :=
      o.off (parent j) hp0 (by omega) (by omega) (by omega)
    rw [ko (parent (parent j)) (by omega) (by omega)]
    by_cases hcj : c = j
    · rw [hcj, kj]
      exact hup
    · rw [ko c (by have := parent_lt hc0; omega) hcj]
      exact fun hlt' => hsib c hc0 hcn hcj hcpar (lt_of_lt_of_le hlt' (not_lt.mp hup))
  case below =>
    rw [kp]
    by_cases hcj : c = j
    · rw [hcj, kj]
      exact lt_asymm hlt
    · rw [ko c (by have := parent_lt hc0; omega) hcj]
      exact fun hlt' => hsib c hc0 hcn hcj hcpar (lt_trans hlt' hlt)

/-- One turn of the loop of `down`: swapping the hole with the child it picked, which is less
than it, moves the hole to that child, in order with its new parent. -/
theorem Hole.swap (hl : Lawful h key) {s : σ} {n i : Nat} (o : Hole key s n i) (hn : n ≤ h.len s)
    (hc : 2 * i + 1 < n) (hlt : key s (minChild h s i n) < key s i) :
    DownHole key (h.swap s i (minChild h s i n)) n (minChild h s i n) := by
  have hpm := minChild_parent (h := h) s i n
  have him := lt_minChild (h := h) s i n
  have hmn := minChild_lt (h := h) (s := s) hc
  have hmin : ∀ c, 0 < c → c < n → parent c = i → ¬ key s c < key s (minChild h s i n) :=
    fun c hc0 hcn hci => hl.minChild_min hn hc0 hcn hci
  generalize minChild h s i n = m at hpm him hmn hlt hmin ⊢
  have ki := hl.key_swap_left (s := s) (i := i) (j := m) (by omega) (by omega)
  have km := hl.key_swap_right (s := s) (i := i) (j := m) (by omega) (by omega)
  have ko : ∀ c, c ≠ i → c ≠ m → key (h.swap s i m) c = key s c :=
    fun c hci hcm => hl.key_swap_of_ne (by omega) (by omega) hci hcm
  refine ⟨⟨fun c hc0 hcn hcm hpc => ?off, fun hm0 c hc0 hcn hcpar => ?grand⟩, fun _ => ?above⟩
  case off =>
    by_cases hci : c = i
    · -- the picked child now at `i` is at or after the parent of `i`
      subst hci
      have hpc' : parent c < c := parent_lt hc0
      rw [ki, ko (parent c) (by omega) (by omega)]
      exact o.grand hc0 m (by omega) hmn hpm
    · rw [ko c hci hcm]
      by_cases hpci : parent c = i
      · rw [hpci, ki]
        exact hmin c hc0 hcn hpci
      · rw [ko (parent c) hpci hpc]
        exact o.off c hc0 hcn hci hpci
  case grand =>
    have hmc : m < c := hcpar ▸ parent_lt hc0
    rw [hpm, ki, ko c (by omega) (by omega)]
    have hc' := o.off c hc0 hcn (by omega) (by omega)
    rwa [hcpar] at hc'
  case above =>
    rw [hpm, km, ki]
    exact lt_asymm hlt

/-! ### The sifts -/

section Sifts

variable (hl : Lawful h key)
include hl

/-- `less` at two positions among the first `n`, as the keys. -/
theorem Lawful.less_eq_false {s : σ} {i j : Nat} (hi : i < h.len s) (hj : j < h.len s) :
    h.less s i j = false ↔ ¬ key s i < key s j := by
  rw [hl.less s i j hi hj, decide_eq_false_iff_not]

/-- Where `less` is not false, the keys are in order. -/
theorem Lawful.lt_of_less_ne_false {s : σ} {i j : Nat} (hi : i < h.len s) (hj : j < h.len s)
    (hless : ¬ h.less s i j = false) : key s i < key s j := by
  rw [hl.less s i j hi hj] at hless
  simpa using hless

/-- `up` from a hole below `n` ends in a heap of the first `n` positions. -/
theorem up_isHeap {n : Nat} :
    ∀ (s : σ) (j : Nat), UpHole key s n j → j < n → n ≤ h.len s → IsHeap key (up h s j) n := by
  intro s j
  induction s, j using up.induct h with
  | case1 s j hstop =>
      intro o hjn hn
      rw [up, if_pos hstop]
      refine o.isHeap fun hj0 => ?_
      -- past the root, the stop is the parent not after the hole
      have hne : parent j ≠ j := fun he => absurd (parent_lt hj0) (by omega)
      have hless := hstop.resolve_left hne
      exact (hl.less_eq_false (by omega) (by have := parent_le j; omega)).mp hless
  | case2 s j hstop ih =>
      intro o hjn hn
      rw [up, if_neg hstop]
      have hne : parent j ≠ j := fun he => hstop (Or.inl he)
      have hj0 : 0 < j := Nat.pos_of_ne_zero fun hz => hne (hz ▸ rfl)
      have hlt : key s j < key s (parent j) :=
        hl.lt_of_less_ne_false (by omega) (by have := parent_le j; omega)
          fun hb => hstop (Or.inr hb)
      exact ih (o.swap hl hj0 hjn hn hlt) (Nat.lt_of_le_of_lt (parent_le j) hjn)
        (by rw [hl.len_swap]; exact hn)

/-- The loop of `down` from a hole in order with its parent ends in a heap of the first `n`
positions. -/
theorem downFrom_isHeap {n : Nat} :
    ∀ (s : σ) (i : Nat), DownHole key s n i → n ≤ h.len s → IsHeap key (downFrom h s i n).1 n := by
  intro s i
  fun_induction downFrom h s i n with
  | case1 s i hn =>
      intro o _
      -- no child of the hole is among the first `n`
      exact o.isHeap fun c hc0 hcn hci => absurd ((parent_eq_iff hc0).mp hci) (by omega)
  | case2 s i hn hless =>
      intro o hlen
      refine o.isHeap fun c hc0 hcn hci hlt => ?_
      have hm := minChild_lt (h := h) (s := s) (i := i) (n := n) (by omega)
      have hmi := lt_minChild (h := h) s i n
      have hstop := (hl.less_eq_false (by omega) (by omega)).mp hless
      exact hl.minChild_min hlen hc0 hcn hci (lt_of_lt_of_le hlt (not_lt.mp hstop))
  | case3 s i hn hless ih =>
      intro o hlen
      have hm := minChild_lt (h := h) (s := s) (i := i) (n := n) (by omega)
      have hmi := lt_minChild (h := h) s i n
      have hlt : key s (minChild h s i n) < key s i :=
        hl.lt_of_less_ne_false (by omega) (by omega) hless
      exact ih (o.toHole.swap hl hlen (by omega) hlt) (by rw [hl.len_swap]; exact hlen)

/-- The loop of `down` from any hole: either it does not move and the hole's children are in
order with it, or it moves and ends in a heap. -/
theorem downFrom_of_hole {s : σ} {n i : Nat} (o : Hole key s n i) (hn : n ≤ h.len s)
    (hi : i < n) :
    (downFrom h s i n = (s, i) ∧ UpHole key s n i) ∨
      (i < (downFrom h s i n).2 ∧ IsHeap key (downFrom h s i n).1 n) := by
  rw [downFrom]
  split_ifs with hleaf hless
  · exact Or.inl ⟨rfl, ⟨o, fun c hc0 hcn hci => absurd ((parent_eq_iff hc0).mp hci) (by omega)⟩⟩
  · have hm := minChild_lt (h := h) (s := s) (i := i) (n := n) (by omega)
    have hmi := lt_minChild (h := h) s i n
    have hstop := (hl.less_eq_false (by omega) (by omega)).mp hless
    exact Or.inl ⟨rfl, ⟨o, fun c hc0 hcn hci hlt =>
      hl.minChild_min hn hc0 hcn hci (lt_of_lt_of_le hlt (not_lt.mp hstop))⟩⟩
  · have hm := minChild_lt (h := h) (s := s) (i := i) (n := n) (by omega)
    have hmi := lt_minChild (h := h) s i n
    have hlt : key s (minChild h s i n) < key s i :=
      hl.lt_of_less_ne_false (by omega) (by omega) hless
    refine Or.inr ⟨Nat.lt_of_lt_of_le hmi (le_downFrom h n _ _), ?_⟩
    exact downFrom_isHeap hl _ _ (o.swap hl hn (by omega) hlt) (by rw [hl.len_swap]; exact hn)

/-- `fix` after the key at `i` changed ends in a heap. -/
theorem fix_isHeap {s : σ} {i : Nat} (o : Hole key s (h.len s) i) (hi : i < h.len s) :
    IsHeap key (fix h s i) (h.len s) := by
  unfold fix down
  rcases downFrom_of_hole hl o le_rfl hi with ⟨hrun, o'⟩ | ⟨hmoved, hheap⟩
  · -- `down` did not move: `up` finishes from the same state
    rw [hrun]
    simp only [lt_irrefl, decide_false, Bool.false_eq_true, if_false]
    exact up_isHeap hl s i o' hi le_rfl
  · simp only [hmoved, decide_true, if_true]
    exact hheap

/-- `heap.Push` keeps a heap. -/
theorem push_isHeap {s : σ} (hs : IsHeap key s (h.len s)) (x : α) :
    IsHeap key (push h s x) (h.len (push h s x)) := by
  have hlen := hl.len_push s x
  -- the new last position is a hole with no children
  have o : UpHole key (h.push s x) (h.len s + 1) (h.len s) :=
    { off := fun c hc0 hcn hcs hpc => by
        have hpc' := parent_lt hc0
        rw [hl.key_push s x c (by omega), hl.key_push s x (parent c) (by omega)]
        exact hs c hc0 (by omega)
      grand := fun _ c hc0 hcn hcs => absurd ((parent_eq_iff hc0).mp hcs) (by omega)
      below := fun c hc0 hcn hcs => absurd ((parent_eq_iff hc0).mp hcs) (by omega) }
  unfold push
  rw [hl.len_up _ (by omega), hlen, Nat.add_sub_cancel]
  exact up_isHeap hl _ _ o (by omega) (by omega)

/-- The state `heap.Pop` hands to `Pop` of the interface: the last position holds the key of
the old root, and the others are a heap. -/
theorem pop_down_isHeap {s : σ} (hs : IsHeap key s (h.len s)) (hpos : 0 < h.len s) :
    IsHeap key (down h (h.swap s 0 (h.len s - 1)) 0 (h.len s - 1)).1 (h.len s - 1) ∧
      key (down h (h.swap s 0 (h.len s - 1)) 0 (h.len s - 1)).1 (h.len s - 1) = key s 0 ∧
      h.len (down h (h.swap s 0 (h.len s - 1)) 0 (h.len s - 1)).1 = h.len s := by
  have hswap := hl.len_swap s 0 (h.len s - 1)
  -- the old last key at the root is a hole in order with its (missing) parent
  have o : DownHole key (h.swap s 0 (h.len s - 1)) (h.len s - 1) 0 :=
    { off := fun c hc0 hcn _ hpc => by
        have hp := parent_lt hc0
        rw [hl.key_swap_of_ne hpos (by omega) (by omega) (by omega),
          hl.key_swap_of_ne hpos (by omega) hpc (by omega)]
        exact hs c hc0 (by omega)
      grand := fun h0 => absurd h0 (lt_irrefl 0)
      above := fun h0 => absurd h0 (lt_irrefl 0) }
  refine ⟨downFrom_isHeap hl _ _ o (by omega), ?_, ?_⟩
  · rw [down, hl.key_downFrom_of_le (by omega) 0 le_rfl, hl.key_swap_right hpos (by omega)]
  · rw [down, hl.len_downFrom, hswap]

/-- `Pop` of the interface on a state whose positions but the last are a heap leaves a heap. -/
theorem isHeap_pop_of_init {s : σ} (hs : IsHeap key s (h.len s - 1)) :
    IsHeap key (h.pop s).1 (h.len (h.pop s).1) := by
  rw [hl.len_pop]
  intro c hc0 hcn
  have hp := parent_lt hc0
  rw [hl.key_pop _ c (by omega), hl.key_pop _ (parent c) (by omega)]
  exact hs c hc0 hcn

/-- `heap.Pop` keeps a heap, one position shorter. -/
theorem pop_isHeap {s : σ} (hs : IsHeap key s (h.len s)) (hpos : 0 < h.len s) :
    IsHeap key (pop h s).1 (h.len (pop h s).1) := by
  obtain ⟨hheap, -, hlen⟩ := pop_down_isHeap hl hs hpos
  unfold pop
  apply isHeap_pop_of_init hl
  rw [hlen]
  exact hheap

/-- `heap.Remove` keeps a heap, one position shorter. -/
theorem remove_isHeap {s : σ} (hs : IsHeap key s (h.len s)) {i : Nat} (hi : i < h.len s) :
    IsHeap key (remove h s i).1 (h.len (remove h s i).1) := by
  have hinit : IsHeap key s (h.len s - 1) := fun c hc0 hcn => hs c hc0 (by omega)
  unfold remove
  split_ifs with hne
  · -- the last element moved to `i` leaves a hole at `i` among the others
    have hlen := hl.len_swap s i (h.len s - 1)
    have o : Hole key (h.swap s i (h.len s - 1)) (h.len s - 1) i :=
      hinit.hole_of_key_eq fun c hcn hci => hl.key_swap_of_ne hi (by omega) hci (by omega)
    apply isHeap_pop_of_init hl
    unfold down
    rcases downFrom_of_hole hl o (by omega) (by omega) with ⟨hrun, o'⟩ | ⟨hmoved, hheap⟩
    · rw [hrun]
      simp only [lt_irrefl, decide_false, Bool.false_eq_true, if_false]
      rw [hl.len_up _ (by omega), hlen]
      exact up_isHeap hl _ i o' (by omega) (by omega)
    · simp only [hmoved, decide_true, if_true]
      rw [hl.len_downFrom, hlen]
      exact hheap
  · exact isHeap_pop_of_init hl hinit

end Sifts

end Heap
end Kubernetes
