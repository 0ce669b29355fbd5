import Mathlib

/-!
# Mixed-radix digits and Lehmer decoding

A number below `k₀ * k₁ * ⋯` is written in the mixed radix `k₀, k₁, …` as its digits, least
significant first; a list of digits below the falling radices `n, n - 1, …, n - h + 1` is
decoded into `h` distinct cards of a deck of `n` by Lehmer's rule: the first digit is the first
card, and the rest are decoded in the deck with that card taken out.

* `digits_bijOn` — the digits are a bijection from `[0, ∏ ks)` onto the digit lists in range;
* `decode_bijOn` — decoding is a bijection from the digit lists in range of `falling n h`
  onto the lists of `h` distinct cards below `n`;
* `decode_eq_bump` — decoding is the loop that moves each digit past every earlier digit it
  is not below, the latest first.
-/

namespace Kubernetes
namespace Lehmer

/-! ## Mixed radix -/

/-- The digits of `x` in the radices `ks`, least significant first. -/
def digits : List Nat → Nat → List Nat
  | [], _ => []
  | k :: ks, x => x % k :: digits ks (x / k)
attribute [grind] digits

/-- The number the digits `ds` stand for in the radices `ks`. -/
def value : List Nat → List Nat → Nat
  | k :: ks, d :: ds => d + k * value ks ds
  | _, _ => 0
attribute [grind] value

@[simp] theorem length_digits (ks : List Nat) (x : Nat) : (digits ks x).length = ks.length := by
  induction ks generalizing x with
  | nil => rfl
  | cons k ks ih => simp [digits, ih]

/-- Appending a radix appends the digit of the quotient by the radices before it. -/
theorem digits_append_singleton (ks : List Nat) (k x : Nat) :
    digits (ks ++ [k]) x = digits ks x ++ [x / ks.prod % k] := by
  induction ks generalizing x with
  | nil => simp [digits]
  | cons k' ks ih => simp [digits, ih, Nat.div_div_eq_div_mul]

/-- With positive radices, every digit is below its radix. -/
theorem digits_lt {ks : List Nat} (hks : ∀ k ∈ ks, 0 < k) (x : Nat) :
    List.Forall₂ (· < ·) (digits ks x) ks := by
  induction ks generalizing x with
  | nil => exact .nil
  | cons k ks ih =>
      refine .cons (Nat.mod_lt _ (hks k (by simp))) (ih (fun k' hk' => hks k' (by simp [hk'])) _)

/-- The digits see `x` only modulo the product of the radices. -/
theorem digits_mod_prod (ks : List Nat) (x : Nat) : digits ks (x % ks.prod) = digits ks x := by
  induction ks generalizing x with
  | nil => rfl
  | cons k ks ih =>
      simp only [digits, List.prod_cons, Nat.mod_mul_right_mod, Nat.mod_mul_right_div_self, ih]

theorem value_digits (ks : List Nat) (x : Nat) : value ks (digits ks x) = x % ks.prod := by
  induction ks generalizing x with
  | nil => simp [value, Nat.mod_one]
  | cons k ks ih => simp [digits, value, ih, Nat.mod_mul]

theorem value_lt {ks ds : List Nat} (h : List.Forall₂ (· < ·) ds ks) : value ks ds < ks.prod := by
  induction h with
  | nil => simp [value]
  | @cons d k ds ks hd _ ih =>
      simp only [value, List.prod_cons]
      calc d + k * value ks ds < k + k * value ks ds := by omega
        _ = k * (value ks ds + 1) := by ring
        _ ≤ k * ks.prod := Nat.mul_le_mul_left k ih

theorem digits_value {ks ds : List Nat} (h : List.Forall₂ (· < ·) ds ks) :
    digits ks (value ks ds) = ds := by
  induction h with
  | nil => rfl
  | @cons d k ds ks hd _ ih =>
      have hk : 0 < k := by omega
      simp only [digits, value, List.cons.injEq]
      refine ⟨?_, ?_⟩
      · rw [Nat.add_mul_mod_self_left, Nat.mod_eq_of_lt hd]
      · rw [Nat.add_mul_div_left _ _ hk, Nat.div_eq_of_lt hd, Nat.zero_add, ih]

/-- With positive radices, the digits are a bijection from the numbers below the product of
the radices onto the digit lists in range. -/
theorem digits_bijOn {ks : List Nat} (hks : ∀ k ∈ ks, 0 < k) :
    Set.BijOn (digits ks) (Set.Iio ks.prod) {ds | List.Forall₂ (· < ·) ds ks} := by
  refine ⟨fun x _ => digits_lt hks x, fun x hx y hy hxy => ?_, fun ds hds => ?_⟩
  · -- the value of the digits gives the number back
    have hval := congrArg (value ks) hxy
    rwa [value_digits, value_digits, Nat.mod_eq_of_lt hx, Nat.mod_eq_of_lt hy] at hval
  · exact ⟨value ks ds, value_lt hds, digits_value hds⟩

/-! ## Falling radices -/

/-- The radices `n, n - 1, …, n - h + 1`. -/
def falling (n h : Nat) : List Nat :=
  (List.range h).map (n - ·)
attribute [grind] falling

@[simp] theorem length_falling (n h : Nat) : (falling n h).length = h := by
  simp [falling]

theorem falling_zero (n : Nat) : falling n 0 = [] := rfl

theorem falling_succ (n h : Nat) : falling n (h + 1) = n :: falling (n - 1) h := by
  simp only [falling, List.range_succ_eq_map, List.map_cons, List.map_map, Nat.sub_zero,
    List.cons.injEq, true_and]
  refine List.map_congr_left fun i _ => ?_
  simp only [Function.comp_apply, Nat.succ_eq_add_one]
  omega

theorem falling_succ_right (n h : Nat) : falling n (h + 1) = falling n h ++ [n - h] := by
  simp [falling, List.range_succ]

theorem prod_falling (n h : Nat) : (falling n h).prod = n.descFactorial h := by
  induction h generalizing n with
  | zero => rfl
  | succ h ih =>
      rw [falling_succ, List.prod_cons, ih]
      cases n with
      | zero => simp
      | succ n => rw [Nat.succ_descFactorial_succ, Nat.add_sub_cancel]

theorem falling_pos {n h : Nat} (hh : h ≤ n) : ∀ k ∈ falling n h, 0 < k := by
  intro k hk
  obtain ⟨i, hi, rfl⟩ := List.mem_map.mp hk
  have := List.mem_range.mp hi
  omega

/-! ## Lehmer decoding -/

/-- `skip r x`: the `x`-th number other than `r`. -/
def skip (r x : Nat) : Nat :=
  if r ≤ x then x + 1 else x
attribute [grind] skip

/-- The inverse of `skip r` away from `r`. -/
def unskip (r y : Nat) : Nat :=
  if r < y then y - 1 else y
attribute [grind] unskip

theorem skip_ne (r x : Nat) : skip r x ≠ r := by
  unfold skip
  split_ifs <;> omega

theorem skip_injective (r : Nat) : Function.Injective (skip r) := by
  intro x y hxy
  unfold skip at hxy
  split_ifs at hxy <;> omega

theorem skip_lt {r x n : Nat} (hx : x < n - 1) : skip r x < n := by
  unfold skip
  split_ifs <;> omega

theorem skip_unskip {r y : Nat} (hy : y ≠ r) : skip r (unskip r y) = y := by
  unfold skip unskip
  split_ifs <;> omega

theorem unskip_lt {r y n : Nat} (hr : r < n) (hy : y < n) (hne : y ≠ r) : unskip r y < n - 1 := by
  unfold unskip
  split_ifs <;> omega

/-- Lehmer decoding: the first digit is the first card, and the other digits are decoded
among the cards other than it. -/
def decode : List Nat → List Nat
  | [] => []
  | r :: rs => r :: (decode rs).map (skip r)
attribute [grind] decode

/-- A hand of `h` distinct cards of a deck of `n`. -/
def Hand (n h : Nat) : Set (List Nat) :=
  {l | l.length = h ∧ l.Nodup ∧ ∀ c ∈ l, c < n}
attribute [grind] Hand

theorem decode_mapsTo (n h : Nat) :
    Set.MapsTo decode {rs | List.Forall₂ (· < ·) rs (falling n h)} (Hand n h) := by
  induction h generalizing n with
  | zero =>
      intro rs hrs
      rw [Set.mem_ofPred_eq, falling_zero, List.forall₂_nil_right_iff] at hrs
      subst hrs
      exact ⟨rfl, List.nodup_nil, by simp [decode]⟩
  | succ h ih =>
      intro rs hrs
      rw [Set.mem_ofPred_eq, falling_succ] at hrs
      obtain ⟨r, rs, hr, hrest, rfl⟩ := List.forall₂_cons_right_iff.mp hrs
      obtain ⟨hlen, hnodup, hlt⟩ := ih (n - 1) hrest
      refine ⟨by simp [decode, hlen], ?_, ?_⟩
      · -- the moved cards are distinct, and none of them is the first card
        refine List.nodup_cons.mpr ⟨fun hmem => ?_, hnodup.map (skip_injective r)⟩
        obtain ⟨x, _, hx⟩ := List.mem_map.mp hmem
        exact skip_ne r x hx
      · intro c hc
        rcases List.mem_cons.mp hc with rfl | hc
        · exact hr
        · obtain ⟨x, hx, rfl⟩ := List.mem_map.mp hc
          exact skip_lt (hlt x hx)

theorem decode_injOn (n h : Nat) :
    Set.InjOn decode {rs | List.Forall₂ (· < ·) rs (falling n h)} := by
  induction h generalizing n with
  | zero =>
      intro rs hrs rs' hrs' _
      rw [Set.mem_ofPred_eq, falling_zero, List.forall₂_nil_right_iff] at hrs hrs'
      rw [hrs, hrs']
  | succ h ih =>
      intro rs hrs rs' hrs' heq
      rw [Set.mem_ofPred_eq, falling_succ] at hrs hrs'
      obtain ⟨r, rs, _, hrest, rfl⟩ := List.forall₂_cons_right_iff.mp hrs
      obtain ⟨r', rs', _, hrest', rfl⟩ := List.forall₂_cons_right_iff.mp hrs'
      simp only [decode, List.cons.injEq] at heq
      obtain ⟨rfl, hmap⟩ := heq
      -- `skip r` is injective, so the decoded rests agree
      have hdecode := List.map_injective_iff.mpr (skip_injective r) hmap
      rw [ih (n - 1) hrest hrest' hdecode]

theorem decode_surjOn (n h : Nat) :
    Set.SurjOn decode {rs | List.Forall₂ (· < ·) rs (falling n h)} (Hand n h) := by
  induction h generalizing n with
  | zero =>
      rintro l ⟨hlen, -, -⟩
      rw [List.length_eq_zero_iff.mp hlen]
      exact ⟨[], by simp [falling_zero], rfl⟩
  | succ h ih =>
      rintro l ⟨hlen, hnodup, hlt⟩
      obtain ⟨c, cs, rfl⟩ := List.exists_cons_of_length_eq_add_one hlen
      obtain ⟨hc, hcs⟩ := List.nodup_cons.mp hnodup
      have hne : ∀ y ∈ cs, y ≠ c := fun y hy hyc => hc (hyc ▸ hy)
      -- the other cards, renumbered among the cards other than `c`
      have hback : (cs.map (unskip c)).map (skip c) = cs := by
        rw [List.map_map]
        exact (List.map_congr_left fun y hy => skip_unskip (hne y hy)).trans (List.map_id _)
      have hhand : cs.map (unskip c) ∈ Hand (n - 1) h := by
        refine ⟨by simpa using hlen, List.Nodup.of_map (skip c) (by rw [hback]; exact hcs), ?_⟩
        intro x hx
        obtain ⟨y, hy, rfl⟩ := List.mem_map.mp hx
        exact unskip_lt (hlt c (by simp)) (hlt y (by simp [hy])) (hne y hy)
      obtain ⟨rs, hrs, hdecode⟩ := ih (n - 1) hhand
      refine ⟨c :: rs, ?_, ?_⟩
      · rw [Set.mem_ofPred_eq, falling_succ]
        exact .cons (hlt c (by simp)) hrs
      · rw [decode, hdecode, hback]

/-- Lehmer decoding is a bijection from the digit lists in range of the falling radices onto
the hands. -/
theorem decode_bijOn (n h : Nat) :
    Set.BijOn decode {rs | List.Forall₂ (· < ·) rs (falling n h)} (Hand n h) :=
  ⟨decode_mapsTo n h, decode_injOn n h, decode_surjOn n h⟩

/-- Lehmer decoding as a loop over the digits: the `i`-th card is the `i`-th digit moved past
every earlier digit it is not below, from the `(i - 1)`-th down to the first. -/
theorem decode_eq_bump (rs : List Nat) :
    decode rs = (List.range rs.length).map fun i =>
      (List.range i).reverse.foldl (fun card j => skip (rs.getD j 0) card) (rs.getD i 0) := by
  induction rs with
  | nil => rfl
  | cons r rs ih =>
      rw [decode, ih, List.length_cons, List.range_succ_eq_map, List.map_cons, List.map_map]
      simp only [List.range_zero, List.reverse_nil, List.foldl_nil, List.getD_cons_zero,
        List.map_map, List.cons.injEq, true_and]
      refine List.map_congr_left fun i _ => ?_
      simp only [Function.comp_apply, List.foldl_reverse, List.range_succ_eq_map, List.foldr_cons,
        List.foldr_map, List.getD_cons_zero, Nat.succ_eq_add_one, List.getD_cons_succ]

/-- The digits of `x` in the falling radices, decoded: a hand for every `x` below the number of
hands, each reached once. -/
theorem decode_digits_bijOn {n h : Nat} (hh : h ≤ n) :
    Set.BijOn (decode ∘ digits (falling n h)) (Set.Iio (n.descFactorial h)) (Hand n h) := by
  rw [← prod_falling]
  exact (decode_bijOn n h).comp (digits_bijOn (falling_pos hh))

end Lehmer
end Kubernetes
