import Mathlib
import Kubernetes.Apf.QueueSet
import Kubernetes.Combinatorics.Lehmer

/-!
# Shuffle sharding deals every hand once

`Dealer.Deal` (`apiserver/pkg/util/shufflesharding`) first writes `hashValue` in the mixed
radix `deckSize, deckSize - 1, …, deckSize - handSize + 1` into the array `remainders`, and
then moves each remainder past every earlier remainder it is not below, the latest first:
this is Lehmer decoding (`Lehmer.decode_eq_bump`), so `Deal` is `decode ∘ digits`
(`deal_eq_decode`).  A dealer that `NewDealer` accepts has at most `2 ^ 60` ordered hands,
hence at most 15 cards in a hand, the size of `remainders`; every hash value deals a hand of
distinct cards, and the hash values below the number of hands deal every hand exactly once
(`deal_hands`).

`RequiredEntropyBits` is compared exactly, as `deckSize ^ handSize > 2 ^ 60` (see
`Apf.QueueSet`); the bounds below hold with a wide margin (a hand of 16 cards needs 64 bits).
-/

namespace Kubernetes
namespace Apf

open Lehmer

/-- The first loop of `Deal` after `m` turns: the first `m` digits of `x` in the falling radices
of a deck of `n`, and the quotient left. -/
theorem remainders_foldl (n x m : Nat) :
    (List.range m).foldl (fun (acc : List Nat × Nat) i =>
      let hashValueNext := acc.2 / (n - i)
      (acc.1 ++ [acc.2 - (n - i) * hashValueNext], hashValueNext)) ([], x) =
      (digits (falling n m) x, x / (falling n m).prod) := by
  induction m with
  | zero => simp [falling_zero, digits]
  | succ m ih =>
      rw [List.range_succ, List.foldl_append, ih, List.foldl_cons, List.foldl_nil]
      dsimp only
      -- the new remainder is the next digit, and the quotient moves on by the new radix
      rw [falling_succ_right, digits_append_singleton, List.prod_append, List.prod_singleton,
        Nat.mod_eq_sub_mul_div, Nat.div_div_eq_div_mul]

/-- `Deal` is Lehmer decoding of the digits of the hash value in the falling radices. -/
theorem Dealer.deal_eq_decode (d : Dealer) (hashValue : UInt64) :
    d.deal hashValue = decode (digits (falling d.deckSize d.handSize) hashValue.toNat) := by
  unfold Dealer.deal
  rw [remainders_foldl, decode_eq_bump, length_digits, length_falling]
  rfl

/-- What `NewDealer` accepts: a deck of at most `2 ^ 26` cards with at most `2 ^ 60` ordered
hands. -/
theorem newDealer_eq_ok {deckSize handSize : Int} {d : Dealer}
    (h : newDealer deckSize handSize = .ok d) :
    d.deckSize = deckSize.toNat ∧ d.handSize = handSize.toNat ∧ d.deckSize ≤ 2 ^ 26 ∧
      d.deckSize ^ d.handSize ≤ 2 ^ maxHashBits := by
  unfold newDealer at h
  split_ifs at h with hpos hle hlarge hbits
  cases h
  refine ⟨rfl, rfl, ?_, not_lt.mp hbits⟩
  dsimp only
  omega

/-- At most `2 ^ 60` ordered hands leave at most 15 cards in a hand. -/
theorem Dealer.handSize_le_fifteen (d : Dealer) (hbits : d.deckSize ^ d.handSize ≤ 2 ^ maxHashBits) :
    d.handSize ≤ 15 := by
  by_contra hlarge
  have hdeck : 16 ≤ d.deckSize := by have := d.handSize_le; omega
  -- a hand of 16 cards of a deck of 16 already has `2 ^ 64` orders
  have hmany : 2 ^ 64 ≤ d.deckSize ^ d.handSize :=
    calc 2 ^ 64 = 16 ^ 16 := by norm_num
      _ ≤ 16 ^ d.handSize := Nat.pow_le_pow_right (by norm_num) (by omega)
      _ ≤ d.deckSize ^ d.handSize := Nat.pow_le_pow_left hdeck _
  have : (2 : Nat) ^ maxHashBits < 2 ^ 64 := by decide
  omega

/-- The number of ordered hands fits a hash value. -/
theorem Dealer.descFactorial_lt (d : Dealer) (hbits : d.deckSize ^ d.handSize ≤ 2 ^ maxHashBits) :
    d.deckSize.descFactorial d.handSize < 2 ^ 64 :=
  calc d.deckSize.descFactorial d.handSize ≤ d.deckSize ^ d.handSize := Nat.descFactorial_le_pow _ _
    _ ≤ 2 ^ maxHashBits := hbits
    _ < 2 ^ 64 := by decide

/-- Every hash value deals a hand of `handSize` distinct cards of the deck. -/
theorem Dealer.deal_mem_hand (d : Dealer) (hashValue : UInt64) :
    d.deal hashValue ∈ Hand d.deckSize d.handSize := by
  rw [Dealer.deal_eq_decode]
  exact decode_mapsTo _ _ (digits_lt (falling_pos d.handSize_le) _)

/-- `Deal` sees the hash value only modulo the number of ordered hands. -/
theorem Dealer.deal_mod (d : Dealer) (hlt : d.deckSize.descFactorial d.handSize < 2 ^ 64)
    (hashValue : UInt64) :
    d.deal hashValue = d.deal (hashValue % UInt64.ofNat (d.deckSize.descFactorial d.handSize)) := by
  have hmod : (hashValue % UInt64.ofNat (d.deckSize.descFactorial d.handSize)).toNat =
      hashValue.toNat % (falling d.deckSize d.handSize).prod := by
    rw [UInt64.toNat_mod, UInt64.toNat_ofNat', Nat.mod_eq_of_lt hlt, prod_falling]
  rw [Dealer.deal_eq_decode, Dealer.deal_eq_decode, hmod, digits_mod_prod]

/-- The hash values below the number of ordered hands deal every hand exactly once. -/
theorem Dealer.deal_bijOn (d : Dealer) (hlt : d.deckSize.descFactorial d.handSize < 2 ^ 64) :
    Set.BijOn (fun x : Nat => d.deal (UInt64.ofNat x)) (Set.Iio (d.deckSize.descFactorial d.handSize))
      (Hand d.deckSize d.handSize) := by
  refine (decode_digits_bijOn d.handSize_le).congr fun x hx => ?_
  -- a number below `2 ^ 64` is its own `uint64`
  have hx64 : (UInt64.ofNat x).toNat = x := by
    rw [UInt64.toNat_ofNat', Nat.mod_eq_of_lt (lt_trans (Set.mem_Iio.mp hx) hlt)]
  simp only [Function.comp_apply, Dealer.deal_eq_decode, hx64]

theorem deal_hands {deckSize handSize : Int} {d : Dealer}
    (hd : newDealer deckSize handSize = .ok d) :
    d.handSize ≤ 15 ∧
      (∀ hashValue : UInt64, (d.deal hashValue).length = d.handSize ∧ (d.deal hashValue).Nodup ∧
        ∀ card ∈ d.deal hashValue, card < d.deckSize) ∧
      d.deckSize.descFactorial d.handSize < 2 ^ 64 ∧
      (∀ hashValue : UInt64, d.deal hashValue =
        d.deal (hashValue % UInt64.ofNat (d.deckSize.descFactorial d.handSize))) ∧
      Set.BijOn (fun x : Nat => d.deal (UInt64.ofNat x))
        (Set.Iio (d.deckSize.descFactorial d.handSize))
        {hand | hand.length = d.handSize ∧ hand.Nodup ∧ ∀ card ∈ hand, card < d.deckSize} := by
  obtain ⟨-, -, -, hbits⟩ := newDealer_eq_ok hd
  have hlt := d.descFactorial_lt hbits
  exact ⟨d.handSize_le_fifteen hbits, d.deal_mem_hand, hlt, d.deal_mod hlt, d.deal_bijOn hlt⟩

theorem deal_hands_deck128 :
    ∃ d, newDealer 128 4 = .ok d ∧ d.handSize ≤ 15 ∧
      (∀ hashValue : UInt64, (d.deal hashValue).length = d.handSize ∧ (d.deal hashValue).Nodup ∧
        ∀ card ∈ d.deal hashValue, card < d.deckSize) ∧
      d.deckSize.descFactorial d.handSize < 2 ^ 64 ∧
      (∀ hashValue : UInt64, d.deal hashValue =
        d.deal (hashValue % UInt64.ofNat (d.deckSize.descFactorial d.handSize))) ∧
      Set.BijOn (fun x : Nat => d.deal (UInt64.ofNat x))
        (Set.Iio (d.deckSize.descFactorial d.handSize))
        {hand | hand.length = d.handSize ∧ hand.Nodup ∧ ∀ card ∈ hand, card < d.deckSize} := by
  have hd : newDealer 128 4 = .ok ⟨128, 4, by decide, by decide⟩ := rfl
  exact ⟨_, hd, deal_hands hd⟩

end Apf
end Kubernetes
