import Mathlib
import Kubernetes.Heap.Container

/-!
# Heaps seen through a map

A value that implements `heap.Interface` often holds more than the heap functions look at:
objects found by key, positions written back into them.  `Simulation h h' P f` says that on
the states of `P` the map `f` into a second interface commutes with `Len`, `Less` and `Swap` of
positions in range, and that such a `Swap` keeps `P`.  Then `f` commutes with the sifts and
with `heap.Fix` (`Simulation.up`, `Simulation.downFrom`, `Simulation.fix`); `heap.Push`,
`heap.Pop` and `heap.Remove` hand corresponding states to `Push` and `Pop` of the two
interfaces (`Simulation.push`, `Simulation.pop`, `Simulation.remove`), which are the caller's
to compare.

The second interface is usually the heap of keys (`keys`): the list of the keys at the
positions, `⊥` where a position has none, compared as keys.  It is `Lawful` with the key at each
position (`keys_lawful`), so every result of `Heap.Container` about the order applies to the
keys of a state that simulates it.
-/

namespace Kubernetes
namespace Heap

universe u v w x

variable {σ : Type u} {α : Type v} {τ : Type w} {α' : Type x}

/-- On the states of `P`, `f` commutes with `Len`, with `Less` and `Swap` of positions in
range, and such a `Swap` keeps `P` and the length. -/
structure Simulation (h : Interface σ α) (h' : Interface τ α') (P : σ → Prop) (f : σ → τ) :
    Prop where
  len : ∀ s, P s → h'.len (f s) = h.len s
  less : ∀ s i j, P s → i < h.len s → j < h.len s → h'.less (f s) i j = h.less s i j
  swap_inv : ∀ s i j, P s → i < h.len s → j < h.len s → P (h.swap s i j)
  len_swap : ∀ s i j, P s → i < h.len s → j < h.len s → h.len (h.swap s i j) = h.len s
  swap : ∀ s i j, P s → i < h.len s → j < h.len s → f (h.swap s i j) = h'.swap (f s) i j

namespace Simulation

variable {h : Interface σ α} {h' : Interface τ α'} {P : σ → Prop} {f : σ → τ}
  (sim : Simulation h h' P f)
include sim

/-- `up` on both sides: the state stays in `P`, keeps its length, and maps to the state `up`
leaves on the other side. -/
theorem up : ∀ (s : σ) (j : Nat), P s → j < h.len s →
    P (Heap.up h s j) ∧ h.len (Heap.up h s j) = h.len s ∧ f (Heap.up h s j) = Heap.up h' (f s) j := by
  intro s j
  induction s, j using Heap.up.induct h with
  | case1 s j hstop =>
      intro hs hj
      -- the same test stops the other side
      have hstop' : parent j = j ∨ h'.less (f s) j (parent j) = false := by
        rcases hstop with hroot | hless
        · exact Or.inl hroot
        · rw [sim.less s j (parent j) hs hj (Nat.lt_of_le_of_lt (parent_le j) hj)]
          exact Or.inr hless
      rw [Heap.up, if_pos hstop, Heap.up, if_pos hstop']
      exact ⟨hs, rfl, rfl⟩
  | case2 s j hstop ih =>
      intro hs hj
      have hpj : parent j < h.len s := Nat.lt_of_le_of_lt (parent_le j) hj
      have hgo : ¬ (parent j = j ∨ h'.less (f s) j (parent j) = false) := by
        rwa [sim.less s j (parent j) hs hj hpj]
      have hlen := sim.len_swap s (parent j) j hs hpj hj
      obtain ⟨hP, hl, hf⟩ := ih (sim.swap_inv s (parent j) j hs hpj hj) (hlen ▸ hpj)
      have hL : Heap.up h s j = Heap.up h (h.swap s (parent j) j) (parent j) := by
        rw [Heap.up, if_neg hstop]
      have hR : Heap.up h' (f s) j = Heap.up h' (h'.swap (f s) (parent j) j) (parent j) := by
        rw [Heap.up, if_neg hgo]
      rw [hL, hR, ← sim.swap s (parent j) j hs hpj hj]
      exact ⟨hP, hl.trans hlen, hf⟩

/-- The child `down` picks is the same on both sides. -/
theorem minChild {s : σ} (hs : P s) {i n : Nat} (hn : n ≤ h.len s) :
    Heap.minChild h' (f s) i n = Heap.minChild h s i n := by
  unfold Heap.minChild
  by_cases hc : 2 * i + 2 < n
  · rw [sim.less s (2 * i + 2) (2 * i + 1) hs (by omega) (by omega)]
  · simp only [hc, false_and, if_false]

/-- The loop of `down` on both sides: the same stopping position, and states that
correspond. -/
theorem downFrom (n : Nat) : ∀ (s : σ) (i : Nat), P s → n ≤ h.len s →
    P (Heap.downFrom h s i n).1 ∧ h.len (Heap.downFrom h s i n).1 = h.len s ∧
      Prod.map f id (Heap.downFrom h s i n) = Heap.downFrom h' (f s) i n := by
  intro s i
  fun_induction Heap.downFrom h s i n with
  | case1 s i hn =>
      intro hs _
      rw [Heap.downFrom, if_pos hn]
      exact ⟨hs, rfl, rfl⟩
  | case2 s i hn hless =>
      intro hs hlen
      have hm := minChild_lt (h := h) (s := s) (i := i) (n := n) (by omega)
      have hless' : h'.less (f s) (Heap.minChild h' (f s) i n) i = false := by
        rw [sim.minChild hs hlen, sim.less s _ i hs (by omega) (by omega)]
        exact hless
      rw [Heap.downFrom, if_neg hn, if_pos hless']
      exact ⟨hs, rfl, rfl⟩
  | case3 s i hn hless ih =>
      intro hs hlen
      have hm := minChild_lt (h := h) (s := s) (i := i) (n := n) (by omega)
      have hi : i < h.len s := by omega
      have hless' : ¬ h'.less (f s) (Heap.minChild h' (f s) i n) i = false := by
        rw [sim.minChild hs hlen, sim.less s _ i hs (by omega) hi]
        exact hless
      have hm' : Heap.minChild h s i n < h.len s := by omega
      have hlen' := sim.len_swap s i _ hs hi hm'
      obtain ⟨hP, hl, hf⟩ := ih (sim.swap_inv s i _ hs hi hm') (by omega)
      have hR : Heap.downFrom h' (f s) i n =
          Heap.downFrom h' (h'.swap (f s) i (Heap.minChild h s i n)) (Heap.minChild h s i n) n := by
        rw [Heap.downFrom, if_neg hn, if_neg hless', sim.minChild hs hlen]
      rw [hR, ← sim.swap s i _ hs hi hm']
      exact ⟨hP, hl.trans hlen', hf⟩

/-- `down` on both sides. -/
theorem down {s : σ} (hs : P s) (i0 : Nat) {n : Nat} (hn : n ≤ h.len s) :
    P (Heap.down h s i0 n).1 ∧ h.len (Heap.down h s i0 n).1 = h.len s ∧
      Prod.map f id (Heap.down h s i0 n) = Heap.down h' (f s) i0 n := by
  obtain ⟨hP, hl, hf⟩ := sim.downFrom n s i0 hs hn
  refine ⟨hP, hl, ?_⟩
  unfold Heap.down
  rw [← hf]
  rfl

/-- `heap.Fix` on both sides. -/
theorem fix {s : σ} (hs : P s) {i : Nat} (hi : i < h.len s) :
    P (Heap.fix h s i) ∧ h.len (Heap.fix h s i) = h.len s ∧ f (Heap.fix h s i) = Heap.fix h' (f s) i := by
  obtain ⟨hP, hl, hf⟩ := sim.down hs i (le_refl (h.len s))
  have hd : Heap.down h' (f s) i (h'.len (f s)) = Prod.map f id (Heap.down h s i (h.len s)) := by
    rw [sim.len s hs, hf]
  unfold Heap.fix
  rw [hd, Prod.map_snd, Prod.map_fst, id_eq]
  by_cases hmoved : (Heap.down h s i (h.len s)).2 = true
  · rw [if_pos hmoved, if_pos hmoved]
    exact ⟨hP, hl, rfl⟩
  · rw [if_neg hmoved, if_neg hmoved]
    obtain ⟨hP', hl', hf'⟩ := sim.up _ i hP (by omega)
    exact ⟨hP', hl'.trans hl, hf'⟩

/-- `heap.Push` on both sides, where `Push` of the interfaces corresponds on the state at
hand. -/
theorem push {s : σ} {x : α} {y : α'} (hP : P (h.push s x)) (hf : f (h.push s x) = h'.push (f s) y)
    (hlen : h.len (h.push s x) = h.len s + 1) :
    P (Heap.push h s x) ∧ h.len (Heap.push h s x) = h.len s + 1 ∧
      f (Heap.push h s x) = Heap.push h' (f s) y := by
  have hlen' : h'.len (h'.push (f s) y) = h.len (h.push s x) := by
    rw [← hf, sim.len _ hP]
  obtain ⟨hP', hl, hf'⟩ := sim.up (h.push s x) (h.len (h.push s x) - 1) hP (by omega)
  unfold Heap.push
  rw [hlen', ← hf]
  exact ⟨hP', hl.trans hlen, hf'⟩

/-- `heap.Pop` on both sides hands corresponding states of the same length to `Pop` of the
interfaces: on the second side, the state `down` leaves after the root went last. -/
theorem pop {s : σ} (hs : P s) (hpos : 0 < h.len s) :
    ∃ t, Heap.pop h s = h.pop t ∧
      f t = (Heap.down h' (h'.swap (f s) 0 (h'.len (f s) - 1)) 0 (h'.len (f s) - 1)).1 ∧
      Heap.pop h' (f s) = h'.pop (f t) ∧ P t ∧ h.len t = h.len s := by
  have hlast : h.len s - 1 < h.len s := by omega
  have hsw := sim.swap s 0 (h.len s - 1) hs hpos hlast
  have hlsw := sim.len_swap s 0 (h.len s - 1) hs hpos hlast
  obtain ⟨hP, hl, hf⟩ := sim.down (sim.swap_inv s 0 _ hs hpos hlast) 0 (n := h.len s - 1) (by omega)
  have hft : f (Heap.down h (h.swap s 0 (h.len s - 1)) 0 (h.len s - 1)).1 =
      (Heap.down h' (h'.swap (f s) 0 (h'.len (f s) - 1)) 0 (h'.len (f s) - 1)).1 := by
    rw [sim.len s hs, ← hsw, ← hf]
    rfl
  refine ⟨_, rfl, hft, ?_, hP, hl.trans hlsw⟩
  unfold Heap.pop
  rw [hft]

/-- `heap.Remove` on both sides hands corresponding states of the same length to `Pop` of the
interfaces. -/
theorem remove {s : σ} (hs : P s) {i : Nat} (hi : i < h.len s) :
    ∃ t, Heap.remove h s i = h.pop t ∧ Heap.remove h' (f s) i = h'.pop (f t) ∧ P t ∧
      h.len t = h.len s := by
  have hlast : h.len s - 1 < h.len s := by omega
  unfold Heap.remove
  rw [sim.len s hs]
  by_cases hne : h.len s - 1 ≠ i
  · rw [if_pos hne, if_pos hne]
    have hsw := sim.swap s i (h.len s - 1) hs hi hlast
    have hlsw := sim.len_swap s i (h.len s - 1) hs hi hlast
    obtain ⟨hP, hl, hf⟩ := sim.down (sim.swap_inv s i _ hs hi hlast) i (n := h.len s - 1) (by omega)
    rw [← hsw, ← hf]
    simp only [Prod.map_snd, Prod.map_fst, id_eq]
    -- `down` moved the element, or `up` takes over from where it stopped
    by_cases hmoved : (Heap.down h (h.swap s i (h.len s - 1)) i (h.len s - 1)).2 = true
    · rw [if_pos hmoved, if_pos hmoved]
      exact ⟨_, rfl, rfl, hP, hl.trans hlsw⟩
    · rw [if_neg hmoved, if_neg hmoved]
      obtain ⟨hP', hl', hf'⟩ := sim.up _ i hP (by omega)
      rw [← hf']
      exact ⟨_, rfl, rfl, hP', hl'.trans (hl.trans hlsw)⟩
  · rw [if_neg hne, if_neg hne]
    exact ⟨s, rfl, rfl, hs, rfl⟩

end Simulation

/-! ## Slices -/

section Slices

variable {β : Type u}

/-- The `Swap` of a slice, read at any position, as an option. -/
theorem getElem?_swap {l : List β} {i j : Nat} (hi : i < l.length) (hj : j < l.length) (c : Nat) :
    (l.swap i j)[c]? = l[Equiv.swap i j c]? := by
  by_cases hc : c < l.length
  · rw [List.getElem?_eq_getElem (by rwa [List.length_swap]), List.getElem_swap]
    by_cases hci : c = i
    · subst hci
      rw [dif_pos ⟨rfl, hj⟩, Equiv.swap_apply_left, List.getElem?_eq_getElem hj]
    · by_cases hcj : c = j
      · subst hcj
        rw [dif_neg (fun hh => hci hh.1), dif_pos ⟨rfl, hi⟩, Equiv.swap_apply_right,
          List.getElem?_eq_getElem hi]
      · rw [dif_neg (fun hh => hci hh.1), dif_neg (fun hh => hcj hh.1),
          Equiv.swap_apply_of_ne_of_ne hci hcj, List.getElem?_eq_getElem hc]
  · have hci : c ≠ i := fun he => hc (he ▸ hi)
    have hcj : c ≠ j := fun he => hc (he ▸ hj)
    rw [Equiv.swap_apply_of_ne_of_ne hci hcj, List.getElem?_eq_none (by rw [List.length_swap]; omega),
      List.getElem?_eq_none (by omega)]

/-- `Swap` of positions in range commutes with a map over the slice. -/
theorem map_swap {γ : Type v} (g : β → γ) {l : List β} {i j : Nat} (hi : i < l.length)
    (hj : j < l.length) : (l.swap i j).map g = (l.map g).swap i j := by
  apply List.ext_getElem?
  intro c
  rw [List.getElem?_map, getElem?_swap hi hj,
    getElem?_swap (by rwa [List.length_map]) (by rwa [List.length_map]), List.getElem?_map]

end Slices

/-! ## The heap of keys -/

variable (κ : Type w) [LinearOrder κ]

/-- The keys at the positions of a heap, `⊥` where a position has none, with `Less` the order
of the keys, `Swap` the swap of two positions, and `Push` and `Pop` at the end. -/
def keys : Interface (List (WithBot κ)) (WithBot κ) where
  len l := l.length
  less l i j := decide (l.getD i ⊥ < l.getD j ⊥)
  swap l i j := l.swap i j
  push l x := l ++ [x]
  pop l := (l.dropLast, l.getLastD ⊥)
attribute [grind] keys

@[simp] theorem keys_len (l : List (WithBot κ)) : (keys κ).len l = l.length :=
  rfl

/-- The key at a position of the heap of keys. -/
def keyAt (l : List (WithBot κ)) (c : Nat) : WithBot κ :=
  l.getD c ⊥
attribute [grind] keyAt

theorem keys_lawful : Lawful (keys κ) (keyAt κ) where
  less _ _ _ _ _ := rfl
  len_swap _ _ _ := List.length_swap
  key_swap _ _ _ hi hj c := getD_swap hi hj c ⊥
  len_push _ _ := List.length_append
  key_push l x c hc := by
    show (l ++ [x]).getD c ⊥ = l.getD c ⊥
    rw [List.getD_append _ _ _ _ hc]
  len_pop l := List.length_dropLast
  key_pop l c hc := by
    have hc' : c + 1 < l.length := hc
    show l.dropLast.getD c ⊥ = l.getD c ⊥
    rw [List.getD_eq_getElem _ _ (by rw [List.length_dropLast]; omega), List.getElem_dropLast,
      List.getD_eq_getElem _ _ (by omega)]

end Heap
end Kubernetes
