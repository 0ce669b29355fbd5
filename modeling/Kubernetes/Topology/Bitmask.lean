import Mathlib

/-!
# `topologymanager/bitmask`: masks of NUMA nodes

A `bitMask` is a `uint64` whose bit `i` stands for NUMA node `i`.  This module models what the
topology manager calls: `NewBitMask` (an error for a bit outside `0..63`), `Count`
(`bits.OnesCount64`), `IsEqual`, `IsLessThan`, `IsNarrowerThan`, `GetBits` and the package-level
`And`.  A nil `BitMask` interface value is an `Option` at the call sites, which panic on it.

The lemmas describe the masks of one node (`single n`, the mask `1 << n`), which are the masks of
count one (`count_eq_one_iff`), and how they meet under `And`.
-/

namespace Kubernetes
namespace Topology

/-- `bitMask`. -/
abbrev BitMask := BitVec 64

namespace BitMask

/-- The mask of node `n`: `1 << n`. -/
def single (n : Nat) : BitMask := BitVec.twoPow 64 n
attribute [grind] single

/-- `Count`: `bits.OnesCount64`, the number of set bits. -/
def count (s : BitMask) : Nat := ((Finset.range 64).filter fun i => s.getLsbD i = true).card
attribute [grind] count

/-- `IsEqual`. -/
def isEqual (s mask : BitMask) : Bool := s == mask
attribute [grind] isEqual

/-- `IsLessThan`: the masks compared as numbers. -/
def isLessThan (s mask : BitMask) : Bool := decide (s.toNat < mask.toNat)
attribute [grind] isLessThan

/-- `IsNarrowerThan`: fewer bits, or as many and a smaller number. -/
def isNarrowerThan (s mask : BitMask) : Bool :=
  if s.count = mask.count then s.isLessThan mask else decide (s.count < mask.count)
attribute [grind] isNarrowerThan

/-- The loop of `Add` from the mask `mask`: the bits set one after another, an error for a bit
outside `0..63` (the receiver is then left as it was). -/
def addBits (mask : BitMask) : List Int → Except String BitMask
  | [] => .ok mask
  | i :: bits =>
      if i < 0 ∨ i ≥ 64 then .error "bit number must be in range 0-63"
      else addBits (mask ||| single i.toNat) bits
attribute [grind] addBits

/-- `NewBitMask`. -/
def newBitMask (bits : List Int) : Except String BitMask :=
  addBits 0 bits
attribute [grind] newBitMask

/-- `GetBits`: the set bits, lowest first. -/
def getBits (s : BitMask) : List Nat :=
  (List.range 64).filter fun i => s.getLsbD i
attribute [grind] getBits

/-- The package-level `And(first, masks...)` on masks that are not nil. -/
def andMasks (first : BitMask) (masks : List BitMask) : BitMask :=
  masks.foldl (· &&& ·) first
attribute [grind] andMasks

/-! ## Single nodes -/

@[simp] theorem getLsbD_single (n j : Nat) :
    (single n).getLsbD j = (decide (n < 64) && decide (n = j)) :=
  BitVec.getLsbD_twoPow n j

theorem toNat_single {n : Nat} (hn : n < 64) : (single n).toNat = 2 ^ n := by
  rw [single, BitVec.toNat_twoPow, Nat.mod_eq_of_lt (Nat.pow_lt_pow_right (by norm_num) hn)]

@[simp] theorem count_zero : count 0 = 0 := by
  simp [count]

theorem count_single {n : Nat} (hn : n < 64) : count (single n) = 1 := by
  rw [count, Finset.card_eq_one]
  refine ⟨n, Finset.ext fun j => ?_⟩
  simp only [Finset.mem_filter, Finset.mem_range, getLsbD_single, hn, decide_true, Bool.true_and,
    decide_eq_true_eq, Finset.mem_singleton]
  constructor
  · rintro ⟨-, rfl⟩
    rfl
  · rintro rfl
    exact ⟨hn, rfl⟩

/-- The masks of count one are the masks of one node. -/
theorem count_eq_one_iff {s : BitMask} : count s = 1 ↔ ∃ n < 64, s = single n := by
  constructor
  · intro h
    obtain ⟨n, hn⟩ := Finset.card_eq_one.mp h
    have hmem : ∀ j, j ∈ (Finset.range 64).filter (fun i => s.getLsbD i = true) ↔ j = n := by
      intro j
      rw [hn, Finset.mem_singleton]
    have hn64 : n < 64 := by
      have := (hmem n).mpr rfl
      simp only [Finset.mem_filter, Finset.mem_range] at this
      exact this.1
    refine ⟨n, hn64, BitVec.eq_of_getLsbD_eq fun j hj => ?_⟩
    have := hmem j
    simp only [Finset.mem_filter, Finset.mem_range, hj, true_and] at this
    simp only [getLsbD_single, hn64, decide_true, Bool.true_and]
    by_cases hjn : j = n
    · subst hjn
      simpa using this
    · rw [decide_eq_false (Ne.symm hjn)]
      simpa [hjn] using this
  · rintro ⟨n, hn, rfl⟩
    exact count_single hn

/-- A mask of count zero is empty. -/
theorem count_eq_zero_iff {s : BitMask} : count s = 0 ↔ s = 0 := by
  constructor
  · intro h
    rw [count, Finset.card_eq_zero, Finset.filter_eq_empty_iff] at h
    exact BitVec.eq_of_getLsbD_eq fun j hj => by
      simpa using h (Finset.mem_range.mpr hj)
  · rintro rfl
    exact count_zero

/-- `And` with one node: the node when the mask has it, nothing otherwise. -/
theorem and_single (d : BitMask) {n : Nat} (hn : n < 64) :
    d &&& single n = if d.getLsbD n then single n else 0 := by
  split_ifs with hd
  · apply BitVec.eq_of_getLsbD_eq
    intro j hj
    rw [BitVec.getLsbD_and, getLsbD_single]
    by_cases hnj : n = j
    · subst hnj
      simp [hd, hn]
    · simp [hnj]
  · apply BitVec.eq_of_getLsbD_eq
    intro j hj
    rw [BitVec.getLsbD_and, getLsbD_single]
    by_cases hnj : n = j
    · subst hnj
      simp [hd]
    · simp [hnj]

@[simp] theorem mem_getBits {s : BitMask} {n : Nat} : n ∈ s.getBits ↔ n < 64 ∧ s.getLsbD n = true := by
  simp [getBits]

theorem getBits_single {n : Nat} (hn : n < 64) : getBits (single n) = [n] := by
  have hcount : (List.range 64).count n = 1 :=
    List.count_eq_one_of_mem List.nodup_range (List.mem_range.mpr hn)
  -- below 64 the bit of `single n` is the test `i == n`
  rw [getBits, List.filter_congr (q := (· == n)) (fun i hi => ?_), List.filter_beq, hcount,
    List.replicate_one]
  rw [getLsbD_single, decide_eq_true hn, Bool.true_and]
  by_cases h : i = n
  · simp [h]
  · simp [h, Ne.symm h]

theorem andMasks_nil (first : BitMask) : andMasks first [] = first := rfl

theorem andMasks_cons (first a : BitMask) (masks : List BitMask) :
    andMasks first (a :: masks) = andMasks (first &&& a) masks := rfl

/-- `And` does not depend on the order of the masks. -/
theorem andMasks_perm {masks masks' : List BitMask} (h : masks.Perm masks') (first : BitMask) :
    andMasks first masks = andMasks first masks' := by
  exact h.foldl_eq' (fun x _ y _ z => by
    rw [BitVec.and_assoc, BitVec.and_comm x y, ← BitVec.and_assoc]) first

/-- `And` only clears bits of the first mask. -/
theorem getLsbD_andMasks {first : BitMask} {masks : List BitMask} {j : Nat}
    (h : (andMasks first masks).getLsbD j = true) : first.getLsbD j = true := by
  induction masks generalizing first with
  | nil => exact h
  | cons a masks ih =>
      rw [andMasks_cons] at h
      have := ih h
      rw [BitVec.getLsbD_and, Bool.and_eq_true] at this
      exact this.1

/-- `And` only keeps bits of every mask. -/
theorem getLsbD_of_mem_andMasks {first a : BitMask} {masks : List BitMask} {j : Nat}
    (h : (andMasks first masks).getLsbD j = true) (ha : a ∈ masks) : a.getLsbD j = true := by
  induction masks generalizing first with
  | nil => exact absurd ha List.not_mem_nil
  | cons b masks ih =>
      rw [andMasks_cons] at h
      rcases List.mem_cons.mp ha with rfl | ha
      · have := getLsbD_andMasks h
        rw [BitVec.getLsbD_and, Bool.and_eq_true] at this
        exact this.2
      · exact ih h ha

/-- `And` with one mask again and again is `And` with it once. -/
theorem andMasks_of_forall_eq (first a : BitMask) :
    ∀ masks : List BitMask, masks ≠ [] → (∀ x ∈ masks, x = a) → andMasks first masks = first &&& a
  | [], h, _ => absurd rfl h
  | [x], _, hx => by
      rw [hx x (List.mem_singleton_self x)]
      rfl
  | x :: y :: masks, _, hx => by
      rw [andMasks_cons, hx x List.mem_cons_self,
        andMasks_of_forall_eq (first &&& a) a (y :: masks) (List.cons_ne_nil y masks)
          (fun z hz => hx z (List.mem_cons_of_mem x hz)),
        BitVec.and_assoc, BitVec.and_self]

/-! ## `NewBitMask` -/

/-- `NewBitMask` of nodes in `0..63` sets exactly their bits. -/
theorem addBits_ok (mask : BitMask) :
    ∀ bits : List Int, (∀ i ∈ bits, 0 ≤ i ∧ i < 64) →
      ∃ m, addBits mask bits = .ok m ∧
        ∀ j, j < 64 → (m.getLsbD j = true ↔ mask.getLsbD j = true ∨ (j : Int) ∈ bits)
  | [], _ => ⟨mask, rfl, fun j _ => by simp⟩
  | i :: bits, h => by
      obtain ⟨hi0, hi64⟩ := h i List.mem_cons_self
      obtain ⟨m, hm, hbits⟩ := addBits_ok (mask ||| single i.toNat) bits
        (fun x hx => h x (List.mem_cons_of_mem i hx))
      refine ⟨m, ?_, fun j hj => ?_⟩
      · rw [addBits, if_neg (by omega)]
        exact hm
      · rw [hbits j hj, BitVec.getLsbD_or, getLsbD_single, List.mem_cons]
        have hiN : i.toNat < 64 := by omega
        simp only [Bool.or_eq_true, hiN, decide_true, Bool.true_and, decide_eq_true_eq]
        constructor
        · rintro ((h1 | h2) | h3)
          · exact Or.inl h1
          · exact Or.inr (Or.inl (by omega))
          · exact Or.inr (Or.inr h3)
        · rintro (h1 | h2 | h3)
          · exact Or.inl (Or.inl h1)
          · exact Or.inl (Or.inr (by omega))
          · exact Or.inr h3

/-- `NewBitMask` fails on a node outside `0..63`. -/
theorem addBits_error (mask : BitMask) :
    ∀ bits : List Int, (∃ i ∈ bits, i < 0 ∨ 64 ≤ i) → ∃ err, addBits mask bits = .error err
  | [], ⟨_, hi, _⟩ => absurd hi List.not_mem_nil
  | i :: bits, ⟨x, hx, hout⟩ => by
      by_cases hi : i < 0 ∨ i ≥ 64
      · exact ⟨_, by rw [addBits, if_pos hi]⟩
      · rw [addBits, if_neg hi]
        rcases List.mem_cons.mp hx with rfl | hx
        · exact absurd (by omega) hi
        · exact addBits_error _ bits ⟨x, hx, hout⟩

end BitMask

end Topology
end Kubernetes
