import Mathlib
import Kubernetes.Go.Loops
import Kubernetes.Transition.Reachable
import Kubernetes.Cidrset.Blocks

/-!
# The bookkeeping of a `CidrSet`

`used` is the bitmap of the blocks handed out and `allocatedCIDRs` their count.  The three
calls that change them, `AllocateNext`, `Occupy` and `Release`, keep the state a `Ledger`: the
configuration that `NewCIDRSet` wrote, no bit from `maxCIDRs` on, the count equal to the number
of set bits, and a next candidate among the blocks.  A call that fails returns before it writes
anything, so the states of the system are those reached by the calls that return (`Step`), and
every one of them is a `Ledger` (`ledger_of_reachable`).

What one call does from a `Ledger`: `markRange_spec` for the loop of `Occupy` and `Release`,
`Ledger.allocateNext` for `AllocateNext`, whose scan from `nextCandidate` goes round the blocks
until it meets a clear one (`scanCandidate_spec`).  For a network of the cluster's family in
network form, `getBeginningAndEndIndices` fails when the network misses the cluster and
otherwise gives the range of exactly the blocks that meet it (`blockRange_iff`), so that
`Occupy` and `Release` set and clear the bits of those blocks (`Ledger.markRange_network`).
-/

namespace Kubernetes
namespace Cidrset

open Go Bits Transition

/-- The blocks below `n` whose bit is set in `used`. -/
def usedBlocks (n used : Nat) : Finset Nat :=
  (Finset.range n).filter fun i => used.testBit i
attribute [grind] usedBlocks

@[simp] theorem mem_usedBlocks {n used i : Nat} :
    i ∈ usedBlocks n used ↔ i < n ∧ used.testBit i = true := by
  simp [usedBlocks]

theorem card_usedBlocks_le (n used : Nat) : (usedBlocks n used).card ≤ n :=
  calc (usedBlocks n used).card ≤ (Finset.range n).card := Finset.card_filter_le _ _
    _ = n := Finset.card_range n

/-- All `n` blocks are used exactly when all their bits are set. -/
theorem card_usedBlocks_eq_iff {n used : Nat} :
    (usedBlocks n used).card = n ↔ ∀ i < n, used.testBit i = true := by
  have h := Finset.card_filter_eq_iff (s := Finset.range n) (p := fun i => used.testBit i = true)
  rw [Finset.card_range] at h
  simpa [usedBlocks] using h

theorem usedBlocks_setBit_true {n used i : Nat} (hi : i < n) :
    usedBlocks n (setBit used i true) = insert i (usedBlocks n used) := by
  ext j
  by_cases hji : j = i
  · subst hji
    simp [hi]
  · simp [hji]

theorem usedBlocks_setBit_false {n used i : Nat} :
    usedBlocks n (setBit used i false) = (usedBlocks n used).erase i := by
  ext j
  by_cases hji : j = i <;> simp [hji]

namespace CidrSet

/-- The state with another bitmap, count and next candidate: all that the three calls write. -/
def withBook (s : CidrSet) (used : Nat) (allocatedCIDRs nextCandidate : Int) : CidrSet :=
  { s with used, allocatedCIDRs, nextCandidate }
attribute [grind] withBook

variable (s : CidrSet) (u : Nat) (n c : Int)

@[simp] theorem withBook_used : (s.withBook u n c).used = u := rfl
@[simp] theorem withBook_allocatedCIDRs : (s.withBook u n c).allocatedCIDRs = n := rfl
@[simp] theorem withBook_nextCandidate : (s.withBook u n c).nextCandidate = c := rfl

end CidrSet

open CidrSet

/-- A state of the `CidrSet` that `NewCIDRSet` made for the cluster `a/p` with nodes of `/m`:
the configuration as it was written, a bit only for a block, the count of the set bits, and
a next candidate among the blocks. -/
structure Ledger (f : Family) (a : BitVec f.width) (p m : Nat) (s : CidrSet) : Prop where
  book : s = (initial f a p m).withBook s.used s.allocatedCIDRs s.nextCandidate
  bits_lt : ∀ i, s.used.testBit i = true → i < 2 ^ (m - p)
  count : s.allocatedCIDRs = (usedBlocks (2 ^ (m - p)) s.used).card
  next_nonneg : 0 ≤ s.nextCandidate
  next_lt : s.nextCandidate < 2 ^ (m - p)

variable {f : Family} {a : BitVec f.width} {p m : Nat} {s : CidrSet}

theorem ledger_initial : Ledger f a p m (initial f a p m) where
  book := rfl
  bits_lt i h := by simp [initial] at h
  count := by simp [initial, usedBlocks]
  next_nonneg := le_rfl
  next_lt := by simp [initial]

namespace Ledger

variable (h : Ledger f a p m s)
include h

theorem maxCIDRs : s.maxCIDRs = 2 ^ (m - p) := by
  rw [h.book]
  rfl

theorem getIndexForIP : s.getIndexForIP = (initial f a p m).getIndexForIP := by
  rw [h.book]
  rfl

theorem indexToCIDRBlock : s.indexToCIDRBlock = (initial f a p m).indexToCIDRBlock := by
  rw [h.book]
  rfl

theorem getBeginningAndEndIndices :
    s.getBeginningAndEndIndices = (initial f a p m).getBeginningAndEndIndices := by
  rw [h.book]
  rfl

/-- The count is at most the number of blocks. -/
theorem allocatedCIDRs_le : 0 ≤ s.allocatedCIDRs ∧ s.allocatedCIDRs ≤ s.maxCIDRs := by
  have hle := card_usedBlocks_le (2 ^ (m - p)) s.used
  rw [h.count, h.maxCIDRs]
  exact ⟨Int.natCast_nonneg _, by exact_mod_cast hle⟩

end Ledger

/-! ## The indices `Occupy` and `Release` read -/

/-- `getIndexForIP` gives an index below `maxCIDRs`, whatever the address, once `maxCIDRs` fits
the `uint32` it is compared in. -/
theorem getIndexForIP_lt {s : CidrSet} (h0 : 0 ≤ s.maxCIDRs) (h32 : s.maxCIDRs < 2 ^ 32) {ip : IP}
    {k : Int} (h : s.getIndexForIP ip = .ok k) : 0 ≤ k ∧ k < s.maxCIDRs := by
  unfold CidrSet.getIndexForIP at h
  split at h
  · dsimp only at h
    split_ifs at h with hnil hge
    injection h with h
    subst h
    have hmax : ((BitVec.ofInt 32 s.maxCIDRs).toNat : Int) = s.maxCIDRs := by
      rw [BitVec.toNat_ofInt]
      omega
    rw [BitVec.le_def, not_le] at hge
    omega
  · dsimp only at h
    split_ifs at h with hge
    injection h with h
    subst h
    have hmax : ((BitVec.ofInt 64 s.maxCIDRs).toNat : Int) = s.maxCIDRs := by
      rw [BitVec.toNat_ofInt]
      omega
    omega
  · cases h

/-- The indices `getBeginningAndEndIndices` gives in a `Ledger`: a first block among the
blocks, and a last one below `maxCIDRs`. -/
theorem Ledger.getBeginningAndEndIndices_lt (hc : ClusterCIDR f a p m) (h : Ledger f a p m s)
    {cidr : Option IPNet} {b e : Int} (hbe : s.getBeginningAndEndIndices cidr = .ok (b, e)) :
    0 ≤ b ∧ b < 2 ^ (m - p) ∧ e < 2 ^ (m - p) := by
  have hN : (initial f a p m).maxCIDRs = 2 ^ (m - p) := rfl
  have hN32 : (2 : Int) ^ (m - p) < 2 ^ 32 := by
    have := hc.index_bits
    have hbits : m - p < 32 := by cases f <;> simp only [maxIndexBits] at this <;> omega
    exact pow_lt_pow_right₀ (by norm_num) hbits
  have hindex : ∀ ip k, (initial f a p m).getIndexForIP ip = .ok k → 0 ≤ k ∧ k < 2 ^ (m - p) :=
    fun ip k hk => hN ▸ getIndexForIP_lt (hN ▸ by positivity) (hN ▸ hN32) hk
  rw [h.getBeginningAndEndIndices] at hbe
  unfold CidrSet.getBeginningAndEndIndices at hbe
  split at hbe
  · cases hbe
  · dsimp only at hbe
    split_ifs at hbe with hout hsize
    · -- a network longer than the cluster prefix: the blocks of its first and last addresses
      obtain ⟨b', hb, hbe⟩ := bind_eq_ok.mp hbe
      obtain ⟨ip, -, hbe⟩ := bind_eq_ok.mp hbe
      obtain ⟨e', he, hbe⟩ := bind_eq_ok.mp hbe
      cases hbe
      have := hindex _ _ hb
      have := hindex _ _ he
      omega
    · -- a network no longer than the cluster prefix: all the blocks
      cases hbe
      have : (0 : Int) < 2 ^ (m - p) := by positivity
      simp only [hN]
      omega

/-! ## The loop of `Occupy` and `Release` -/

/-- One turn of the loop of `Occupy` (`v = true`) and `Release` (`v = false`) at block `i`. -/
def markOne (v : Bool) (s : CidrSet) (i : Nat) : CidrSet :=
  if s.used.testBit i ≠ v then
    s.withBook (setBit s.used i v) (s.allocatedCIDRs + if v then 1 else -1) s.nextCandidate
  else s
attribute [grind] markOne

theorem markRange_succ (v : Bool) (s : CidrSet) {i : Int} (hi : 0 ≤ i) (n : Nat) :
    markRange v s i (n + 1) = markRange v (markOne v s i.toNat) (i + 1) n := by
  simp only [markRange, bigBit, not_lt.mpr hi, if_false]
  rfl

theorem testBit_markOne (v : Bool) (s : CidrSet) (i j : Nat) :
    (markOne v s i).used.testBit j = if j = i then v else s.used.testBit j := by
  unfold markOne
  by_cases hne : s.used.testBit i = v
  · -- the bit is already `v`: nothing is written
    rw [if_neg (not_not.mpr hne)]
    by_cases hji : j = i
    · rw [if_pos hji, hji, hne]
    · rw [if_neg hji]
  · rw [if_pos hne, withBook_used, testBit_setBit]

theorem markOne_eq_withBook (v : Bool) (s : CidrSet) (i : Nat) :
    markOne v s i = s.withBook (markOne v s i).used (markOne v s i).allocatedCIDRs s.nextCandidate := by
  unfold markOne
  split_ifs <;> rfl

/-- A turn keeps the count of the set bits below `N` when its block is below `N`. -/
theorem count_markOne (v : Bool) {N : Nat} {s : CidrSet} {i : Nat} (hi : i < N)
    (hcount : s.allocatedCIDRs = (usedBlocks N s.used).card) :
    (markOne v s i).allocatedCIDRs = (usedBlocks N (markOne v s i).used).card := by
  unfold markOne
  by_cases hne : s.used.testBit i = v
  · rw [if_neg (not_not.mpr hne)]
    exact hcount
  · rw [if_pos hne, withBook_allocatedCIDRs, withBook_used]
    cases v with
    | true =>
        -- a clear bit is set: the block joins the used ones
        have hnot : i ∉ usedBlocks N s.used := by simpa [hi] using hne
        rw [usedBlocks_setBit_true hi, Finset.card_insert_of_notMem hnot, hcount, if_pos rfl]
        push_cast
        ring
    | false =>
        -- a set bit is cleared: the block leaves the used ones
        have hmem : i ∈ usedBlocks N s.used := by simpa [hi] using hne
        have hpos : 0 < (usedBlocks N s.used).card := Finset.card_pos.mpr ⟨i, hmem⟩
        rw [usedBlocks_setBit_false, Finset.card_erase_of_mem hmem, hcount,
          if_neg Bool.false_ne_true, Nat.cast_sub hpos]
        push_cast
        ring

/-- The loop over `n` blocks from `i`, all below `N`: it returns, the bits of those blocks
become `v` and no other bit changes, and the count follows the bits. -/
theorem markRange_spec (v : Bool) {N : Nat} :
    ∀ (n : Nat) (s : CidrSet) (i : Nat), i + n ≤ N →
      s.allocatedCIDRs = (usedBlocks N s.used).card →
      ∃ t, markRange v s i n = .ok t ∧
        t = s.withBook t.used t.allocatedCIDRs s.nextCandidate ∧
        t.allocatedCIDRs = (usedBlocks N t.used).card ∧
        ∀ j, t.used.testBit j = if i ≤ j ∧ j < i + n then v else s.used.testBit j := by
  intro n
  induction n with
  | zero =>
      intro s i _ hcount
      refine ⟨s, rfl, rfl, hcount, fun j => ?_⟩
      rw [if_neg (by omega)]
  | succ n ih =>
      intro s i hn hcount
      -- one turn at `i`, then the loop from `i + 1` on the state it leaves
      obtain ⟨t, hrun, hbook, htcount, hbits⟩ :=
        ih (markOne v s i) (i + 1) (by omega) (count_markOne v (by omega) hcount)
      refine ⟨t, ?_, ?_, htcount, fun j => ?_⟩
      · rw [markRange_succ v s (Int.natCast_nonneg i), Int.toNat_natCast]
        exact_mod_cast hrun
      · rw [hbook, markOne_eq_withBook v s i]
        rfl
      · rw [hbits j, testBit_markOne]
        by_cases hji : j = i
        · simp [hji]
        · by_cases hin : i + 1 ≤ j ∧ j < i + 1 + n
          · rw [if_pos hin, if_pos (by omega)]
          · rw [if_neg hin, if_neg hji, if_neg (by omega)]

/-- The loop from block `b` to block `e` of a `Ledger` leaves a `Ledger` whose bits from `b` to
`e` are `v`, the others as they were. -/
theorem Ledger.markRange (h : Ledger f a p m s) (v : Bool) {b e : Int} (hb : 0 ≤ b)
    (hbN : b < 2 ^ (m - p)) (he : e < 2 ^ (m - p)) :
    ∃ t, Cidrset.CidrSet.markRange v s b (e - b + 1).toNat = .ok t ∧ Ledger f a p m t ∧
      ∀ j : Nat, t.used.testBit j = if b ≤ j ∧ j ≤ e then v else s.used.testBit j := by
  have hN : b.toNat + (e - b + 1).toNat ≤ 2 ^ (m - p) := by
    have : (b.toNat : Int) + (e - b + 1).toNat ≤ 2 ^ (m - p) := by omega
    exact_mod_cast this
  obtain ⟨t, hrun, hbook, hcount, hbits⟩ := markRange_spec v _ s b.toNat hN h.count
  have htbits : ∀ j : Nat, t.used.testBit j = if b ≤ j ∧ j ≤ e then v else s.used.testBit j := by
    intro j
    rw [hbits j]
    by_cases hj : b ≤ j ∧ j ≤ e
    · rw [if_pos (by omega), if_pos hj]
    · rw [if_neg (by omega), if_neg hj]
  refine ⟨t, by rwa [Int.toNat_of_nonneg hb] at hrun, ⟨?_, fun j hj => ?_, hcount, ?_, ?_⟩, htbits⟩
  · rw [hbook, h.book]
    rfl
  · -- a bit set by the loop is one of its blocks, the others were set before
    rw [htbits j] at hj
    split_ifs at hj with hin
    · have : (j : Int) < 2 ^ (m - p) := by omega
      exact_mod_cast this
    · exact h.bits_lt j hj
  · rw [hbook]
    exact h.next_nonneg
  · rw [hbook]
    exact h.next_lt

/-! ## `AllocateNext` -/

theorem scanCandidate_succ (s : CidrSet) (n c : Nat) :
    s.scanCandidate (n + 1) c =
      if s.used.testBit c = false then .ok c else s.scanCandidate n ((c + 1 : Int).tmod s.maxCIDRs) := by
  simp only [CidrSet.scanCandidate, bigBit, not_lt.mpr (Int.natCast_nonneg c), if_false,
    Int.toNat_natCast]

/-- The scan from block `c` goes round the `N` blocks while their bits are set: when one of the
next `n` blocks is clear, it stops at a clear block. -/
theorem scanCandidate_spec {s : CidrSet} {N : Nat} (hN : s.maxCIDRs = N) :
    ∀ (n c : Nat), c < N → (∃ k < n, s.used.testBit ((c + k) % N) = false) →
      ∃ j : Nat, s.scanCandidate n c = .ok (j : Int) ∧ j < N ∧ s.used.testBit j = false := by
  intro n
  induction n with
  | zero =>
      rintro c - ⟨k, hk, -⟩
      exact absurd hk (Nat.not_lt_zero k)
  | succ n ih =>
      rintro c hc ⟨k, hk, hclear⟩
      rw [scanCandidate_succ]
      by_cases hb : s.used.testBit c = false
      · rw [if_pos hb]
        exact ⟨c, rfl, hc, hb⟩
      · -- the candidate is used: the clear block lies further round, where the scan goes on
        have hk0 : k ≠ 0 := by
          rintro rfl
          rw [Nat.add_zero, Nat.mod_eq_of_lt hc] at hclear
          exact hb hclear
        have hnext : ((c : Int) + 1).tmod s.maxCIDRs = (((c + 1) % N : Nat) : Int) := by
          rw [hN, Int.tmod_eq_emod_of_nonneg (by omega)]
          push_cast
          rfl
        have hfurther : ∃ k < n, s.used.testBit (((c + 1) % N + k) % N) = false := by
          refine ⟨k - 1, by omega, ?_⟩
          rw [Nat.mod_add_mod, show c + 1 + (k - 1) = c + k by omega]
          exact hclear
        rw [if_neg hb, hnext]
        exact ih _ (Nat.mod_lt _ (by omega)) hfurther

/-- The state `AllocateNext` leaves when it hands out block `i`. -/
def allocated (s : CidrSet) (i : Nat) : CidrSet :=
  s.withBook (setBit s.used i true) (s.allocatedCIDRs + 1) (((i + 1) % s.maxCIDRs.toNat : Nat) : Int)
attribute [grind] allocated

/-- A clear block of a `Ledger` handed out: the state is a `Ledger` again. -/
theorem Ledger.allocated (h : Ledger f a p m s) {i : Nat} (hi : i < 2 ^ (m - p))
    (hclear : s.used.testBit i = false) : Ledger f a p m (Cidrset.allocated s i) := by
  have hN : s.maxCIDRs.toNat = 2 ^ (m - p) := by rw [h.maxCIDRs]; exact Int.toNat_natCast _
  have hnot : i ∉ usedBlocks (2 ^ (m - p)) s.used := by simp [hclear]
  refine ⟨?_, fun j hj => ?_, ?_, ?_, ?_⟩
  · rw [Cidrset.allocated, h.book]
    rfl
  · rw [Cidrset.allocated, withBook_used, testBit_setBit] at hj
    split_ifs at hj with hji
    · exact hji ▸ hi
    · exact h.bits_lt j hj
  · simp only [Cidrset.allocated, withBook_allocatedCIDRs, withBook_used]
    rw [usedBlocks_setBit_true hi, Finset.card_insert_of_notMem hnot, h.count]
    push_cast
    rfl
  · exact Int.natCast_nonneg _
  · simp only [Cidrset.allocated, withBook_nextCandidate, hN]
    exact_mod_cast Nat.mod_lt _ (Nat.two_pow_pos _)

/-- `AllocateNext` from a `Ledger`: it fails exactly when all the blocks are used, and
otherwise hands out a block whose bit was clear and records it. -/
theorem Ledger.allocateNext (h : Ledger f a p m s) :
    ((∃ e, s.allocateNext = .error e) ↔ ∀ i < 2 ^ (m - p), s.used.testBit i = true) ∧
      ∀ r t, s.allocateNext = .ok (r, t) → ∃ i : Nat, i < 2 ^ (m - p) ∧
        s.used.testBit i = false ∧ r = s.indexToCIDRBlock i ∧ t = Cidrset.allocated s i := by
  have hfull : s.allocatedCIDRs = s.maxCIDRs ↔ ∀ i < 2 ^ (m - p), s.used.testBit i = true := by
    rw [h.count, h.maxCIDRs, ← card_usedBlocks_eq_iff]
    exact_mod_cast Iff.rfl
  by_cases hall : ∀ i < 2 ^ (m - p), s.used.testBit i = true
  · -- all the blocks are used: the count says so before any scan
    have hne : s.allocateNext = .error .noCIDRsRemaining := by
      simp only [CidrSet.allocateNext, if_pos (hfull.mpr hall)]
    exact ⟨iff_of_true ⟨_, hne⟩ hall, fun r t ht => by rw [hne] at ht; cases ht⟩
  · -- a clear block: the scan from the next candidate reaches it
    obtain ⟨i, hi, hclear⟩ : ∃ i < 2 ^ (m - p), s.used.testBit i = false := by
      simp only [not_forall, Bool.not_eq_true] at hall
      obtain ⟨i, hi, hb⟩ := hall
      exact ⟨i, hi, hb⟩
    have hcast : ((2 ^ (m - p) : Nat) : Int) = 2 ^ (m - p) := by push_cast; rfl
    have hc := h.next_lt
    have hc0 := h.next_nonneg
    have hcN : s.nextCandidate.toNat < 2 ^ (m - p) := by omega
    obtain ⟨j, hscan, hj, hjclear⟩ := scanCandidate_spec h.maxCIDRs (2 ^ (m - p))
      s.nextCandidate.toNat hcN
      ⟨(i + 2 ^ (m - p) - s.nextCandidate.toNat) % 2 ^ (m - p), Nat.mod_lt _ (Nat.two_pow_pos _), by
        rw [Nat.add_mod_mod, show s.nextCandidate.toNat + (i + 2 ^ (m - p) - s.nextCandidate.toNat) =
          i + 2 ^ (m - p) by omega, Nat.add_mod_right, Nat.mod_eq_of_lt hi]
        exact hclear⟩
    have hscan' : s.scanCandidate s.maxCIDRs.toNat s.nextCandidate = .ok (j : Int) := by
      rw [h.maxCIDRs, ← hcast, Int.toNat_natCast, ← Int.toNat_of_nonneg hc0]
      exact hscan
    have hmax : s.maxCIDRs ≠ 0 := by rw [h.maxCIDRs]; positivity
    have hok : s.allocateNext = .ok (s.indexToCIDRBlock j, Cidrset.allocated s j) := by
      -- the next candidate is the block after the one handed out, round to the first
      have hnext : ((j : Int) + 1).tmod s.maxCIDRs = (((j + 1) % s.maxCIDRs.toNat : Nat) : Int) := by
        rw [Int.tmod_eq_emod_of_nonneg (by omega), h.maxCIDRs, ← hcast, Int.toNat_natCast]
        push_cast
        rfl
      simp only [CidrSet.allocateNext, if_neg (mt hfull.mp hall), hscan', if_neg hmax, bind,
        Except.bind, pure, Except.pure, hnext]
      rfl
    refine ⟨iff_of_false (fun ⟨e, he⟩ => by rw [hok] at he; cases he) hall, fun r t ht => ?_⟩
    rw [hok] at ht
    cases ht
    exact ⟨j, hj, hjclear, rfl, rfl⟩

/-! ## `Occupy` and `Release` of a network of the family -/

/-- Two networks overlap when some address is in both. -/
def Overlaps (n₁ n₂ : IPNet) : Prop :=
  ∃ ip, n₁.contains ip = true ∧ n₂.contains ip = true
attribute [grind] Overlaps

/-- Two networks of the family overlap exactly when they agree on the shorter prefix. -/
theorem overlaps_clusterNet {x y : BitVec f.width} (hx : f.Plain x) (hy : f.Plain y) {k l : Nat}
    (hk : k ≤ f.width) (hl : l ≤ f.width) :
    Overlaps (clusterNet f x k) (clusterNet f y l) ↔ top x (min k l) = top y (min k l) := by
  constructor
  · rintro ⟨ip, hin₁, hin₂⟩
    obtain ⟨z, hz, hzx⟩ := (Family.contains hx).mp hin₁
    obtain ⟨z', hz', hzy⟩ := (Family.contains hy).mp hin₂
    rw [Family.reads_unique hz' hz] at hzy
    -- both agree with the address on the shorter prefix
    rw [← top_eq_of_le (min_le_left k l) hk hzx, top_eq_of_le (min_le_right k l) hl hzy]
  · intro h
    by_cases hkl : k ≤ l
    · -- the second network lies in the first: its own address is in both
      rw [Nat.min_eq_left hkl] at h
      exact ⟨f.ip y, (Family.contains hx).mpr ⟨y, Family.reads_ip hy, h.symm⟩,
        (Family.contains hy).mpr ⟨y, Family.reads_ip hy, rfl⟩⟩
    · rw [Nat.min_eq_right (by omega)] at h
      exact ⟨f.ip x, (Family.contains hx).mpr ⟨x, Family.reads_ip hx, rfl⟩,
        (Family.contains hy).mpr ⟨x, Family.reads_ip hx, h⟩⟩

/-- The network of `a/k` holds the address `x` masked to `k` bits exactly when `x` is in it. -/
theorem contains_mask_clusterNet {x : BitVec f.width} (ha : f.Plain a) (hx : f.Plain x) {k : Nat}
    (hk : k ≤ f.width) :
    (clusterNet f a k).contains ((f.ip x).mask (f.mask (prefixMask f.width k))) = true ↔
      top x k = top a k := by
  have hplain := Family.plain_and_prefixMask hx k
  rw [Family.mask_ip]
  refine (Family.contains (k := k) ha).trans ⟨?_, fun h => ?_⟩
  · rintro ⟨z, hz, hza⟩
    rw [Family.reads_unique hz (Family.reads_ip hplain), top_and_prefixMask x le_rfl hk] at hza
    exact hza
  · exact ⟨_, Family.reads_ip hplain, by rw [top_and_prefixMask x le_rfl hk]; exact h⟩

/-- The addresses of the cluster: their first `m` bits are those of the cluster address followed
by their block. -/
theorem top_eq_add_mod (hc : ClusterCIDR f a p m) {x : BitVec f.width} (hx : top x p = top a p) :
    top x m = top a m + top x m % 2 ^ (m - p) := by
  have hdiv : top x m / 2 ^ (m - p) = top a p := (top_div x hc.le_node hc.node_le).trans hx
  calc top x m = 2 ^ (m - p) * (top x m / 2 ^ (m - p)) + top x m % 2 ^ (m - p) :=
        (Nat.div_add_mod _ _).symm
    _ = top a m + top x m % 2 ^ (m - p) := by
        rw [hdiv, top_of_aligned hc.network hc.le_node hc.node_le, Nat.mul_comm]

/-- The index of an address of the cluster masked to the node prefix: its block. -/
theorem getIndexForIP_and_prefixMask (hc : ClusterCIDR f a p m) {x : BitVec f.width}
    (hx : top x p = top a p) :
    (initial f a p m).getIndexForIP (f.ip (x &&& prefixMask f.width m)) =
      .ok ((top x m % 2 ^ (m - p) : Nat) : Int) := by
  have htop : top (x &&& prefixMask f.width m) m = top x m := top_and_prefixMask x le_rfl hc.node_le
  have hyp : top (x &&& prefixMask f.width m) p = top a p :=
    (top_and_prefixMask x hc.le_node hc.node_le).trans hx
  have hbits : m - p ≤ 64 := by
    have := hc.index_bits
    cases f <;> simp only [maxIndexBits] at this <;> omega
  have hlt : top x m % 2 ^ (m - p) < 2 ^ (m - p) := Nat.mod_lt _ (Nat.two_pow_pos _)
  have hidx : indexOf f a (x &&& prefixMask f.width m) m = top x m % 2 ^ (m - p) := by
    rw [indexOf, xor_div_eq_top_mod hc.network hyp hc.le_node hc.node_le, htop]
    exact Nat.mod_eq_of_lt (lt_of_lt_of_le hlt (Nat.pow_le_pow_right two_pos hbits))
  rw [getIndexForIP_eq hc (Family.reads_ip (hc.plain _ hyp)), hidx, if_neg (not_le.mpr hlt)]

theorem halves_or_not (x y : BitVec 128) :
    (x.extractLsb' 64 64 ||| ~~~y.extractLsb' 64 64) ++ (x.extractLsb' 0 64 ||| ~~~y.extractLsb' 0 64) =
      x ||| ~~~y := by
  apply BitVec.eq_of_getLsbD_eq
  intro j hj
  simp only [BitVec.getLsbD_append, BitVec.getLsbD_or, BitVec.getLsbD_not,
    BitVec.getLsbD_extractLsb']
  by_cases hj64 : j < 64
  · simp [hj64, hj]
  · simp [hj64, show j - 64 < 64 by omega, show 64 + (j - 64) = j by omega, hj]

/-- The last address of a network of the family: its host bits set. -/
theorem lastAddress_clusterNet {c : BitVec f.width} (hc : f.Plain c) (q : Nat) :
    lastAddress (clusterNet f c q) = .ok (f.ip (c ||| ~~~prefixMask f.width q)) := by
  cases f with
  | v4 => rfl
  | v6 =>
      simp only [lastAddress, clusterNet, Family.ip, Family.mask, to4_v6 hc, halves_or_not]

/-- The range check of `getBeginningAndEndIndices` on a network of the family: it fails, and
the call returns an error, exactly when the network and the cluster differ on the shorter
prefix. -/
theorem rangeCheck_clusterNet (hc : ClusterCIDR f a p m) {c : BitVec f.width} {q : Nat}
    (hq : q ≤ f.width) (hcp : f.Plain c) :
    (!(initial f a p m).clusterCIDR.contains
        ((clusterNet f c q).ip.mask (initial f a p m).clusterCIDR.mask) &&
      !(clusterNet f c q).contains ((initial f a p m).clusterCIDR.ip.mask (clusterNet f c q).mask)) =
      !decide (top c (min q p) = top a (min q p)) := by
  have ha := hc.plain a rfl
  have hp : p ≤ f.width := le_trans hc.le_node hc.node_le
  have h1 := contains_mask_clusterNet (k := p) ha hcp hp
  have h2 := contains_mask_clusterNet (k := q) hcp ha hq
  show (!(clusterNet f a p).contains ((f.ip c).mask (f.mask (prefixMask f.width p))) &&
      !(clusterNet f c q).contains ((f.ip a).mask (f.mask (prefixMask f.width q)))) = _
  by_cases hmin : top c (min q p) = top a (min q p)
  · -- the shorter network holds the other's address
    by_cases hqp : q ≤ p
    · rw [Nat.min_eq_left hqp] at hmin
      simp [h2.mpr hmin.symm, Nat.min_eq_left hqp, hmin]
    · rw [Nat.min_eq_right (by omega)] at hmin
      simp [h1.mpr hmin, Nat.min_eq_right (show p ≤ q by omega), hmin]
  · have hn1 : ¬top c p = top a p := fun h => hmin (top_eq_of_le (min_le_right q p) hp h)
    have hn2 : ¬top a q = top c q := fun h => hmin (top_eq_of_le (min_le_left q p) hq h).symm
    simp [mt h1.mp hn1, mt h2.mp hn2, hmin]

theorem size_mask_clusterNet (c : BitVec f.width) {q : Nat} (hq : q ≤ f.width) :
    (clusterNet f c q).mask.size.1 = q := by
  rw [clusterNet, Family.size_mask hq]

section Network

variable (hc : ClusterCIDR f a p m) {c : BitVec f.width} {q : Nat} (hq : q ≤ f.width)
  (hcp : f.Plain c)
include hc hq hcp

/-- A network that misses the cluster: `getBeginningAndEndIndices` fails. -/
theorem getBeginningAndEndIndices_outside
    (hout : ¬Overlaps (clusterNet f c q) (clusterNet f a p)) :
    (initial f a p m).getBeginningAndEndIndices (some (clusterNet f c q)) =
      .error (.outOfClusterRange (clusterNet f c q) (clusterNet f a p)) := by
  have hp : p ≤ f.width := le_trans hc.le_node hc.node_le
  rw [overlaps_clusterNet hcp (hc.plain a rfl) hq hp] at hout
  simp only [CidrSet.getBeginningAndEndIndices, rangeCheck_clusterNet hc hq hcp, hout,
    decide_false, Bool.not_false, if_true]
  rfl

/-- A network longer than the cluster prefix that meets the cluster lies in it:
`getBeginningAndEndIndices` gives the blocks of its first and last addresses. -/
theorem getBeginningAndEndIndices_inside (hov : Overlaps (clusterNet f c q) (clusterNet f a p))
    (hpq : p < q) :
    (initial f a p m).getBeginningAndEndIndices (some (clusterNet f c q)) =
      .ok ((top c m % 2 ^ (m - p) : Nat), (top (c ||| ~~~prefixMask f.width q) m % 2 ^ (m - p) : Nat)) := by
  have hp : p ≤ f.width := le_trans hc.le_node hc.node_le
  have hmin := (overlaps_clusterNet hcp (hc.plain a rfl) hq hp).mp hov
  have hin : top c p = top a p := by rwa [Nat.min_eq_right hpq.le] at hmin
  have hlast : top (c ||| ~~~prefixMask f.width q) p = top a p :=
    (top_or_not_prefixMask_of_le c hpq.le hq).trans hin
  -- the blocks of the first address and of the last one, both masked to the node prefix
  have hbegin : (initial f a p m).getIndexForCIDR
      ⟨(clusterNet f c q).ip.mask (initial f a p m).nodeMask, (initial f a p m).nodeMask⟩ =
      .ok ((top c m % 2 ^ (m - p) : Nat) : Int) := by
    show (initial f a p m).getIndexForIP ((f.ip c).mask (f.mask (prefixMask f.width m))) = _
    rw [Family.mask_ip]
    exact getIndexForIP_and_prefixMask hc hin
  have hend : (initial f a p m).getIndexForCIDR
      ⟨(f.ip (c ||| ~~~prefixMask f.width q)).mask (initial f a p m).nodeMask,
        (initial f a p m).nodeMask⟩ =
      .ok ((top (c ||| ~~~prefixMask f.width q) m % 2 ^ (m - p) : Nat) : Int) := by
    show (initial f a p m).getIndexForIP
      ((f.ip (c ||| ~~~prefixMask f.width q)).mask (f.mask (prefixMask f.width m))) = _
    rw [Family.mask_ip]
    exact getIndexForIP_and_prefixMask hc hlast
  have hlonger : (initial f a p m).clusterMaskSize < (clusterNet f c q).mask.size.1 := by
    rw [size_mask_clusterNet c hq]
    show (p : Int) < q
    exact_mod_cast hpq
  simp only [CidrSet.getBeginningAndEndIndices, rangeCheck_clusterNet hc hq hcp, hmin,
    decide_true, Bool.not_true, Bool.false_eq_true, if_false, if_pos hlonger, hbegin,
    lastAddress_clusterNet hcp, hend, bind, Except.bind, pure, Except.pure]

/-- A network no longer than the cluster prefix that meets the cluster holds it:
`getBeginningAndEndIndices` gives all the blocks. -/
theorem getBeginningAndEndIndices_around (hov : Overlaps (clusterNet f c q) (clusterNet f a p))
    (hqp : q ≤ p) :
    (initial f a p m).getBeginningAndEndIndices (some (clusterNet f c q)) =
      .ok (0, 2 ^ (m - p) - 1) := by
  have hp : p ≤ f.width := le_trans hc.le_node hc.node_le
  have hmin := (overlaps_clusterNet hcp (hc.plain a rfl) hq hp).mp hov
  have hshorter : ¬(initial f a p m).clusterMaskSize < (clusterNet f c q).mask.size.1 := by
    rw [size_mask_clusterNet c hq]
    show ¬(p : Int) < q
    exact_mod_cast not_lt.mpr hqp
  simp only [CidrSet.getBeginningAndEndIndices, rangeCheck_clusterNet hc hq hcp, hmin,
    decide_true, Bool.not_true, Bool.false_eq_true, if_false, if_neg hshorter]
  rfl

/-- A block meets the network `c/q` exactly when its first `m` bits lie between those of the
first and of the last address of the network. -/
theorem overlaps_block_iff (hnet : c &&& prefixMask f.width q = c) {j : Nat} (hj : j < 2 ^ (m - p)) :
    Overlaps ((initial f a p m).indexToCIDRBlock j) (clusterNet f c q) ↔
      top c m ≤ top a m + j ∧ top a m + j ≤ top (c ||| ~~~prefixMask f.width q) m := by
  rw [indexToCIDRBlock_eq hc hj, ← top_blockAddress hc hj]
  exact (overlaps_clusterNet (plain_blockAddress hc hj) hcp hc.node_le hq).trans
    (top_min_eq_iff hnet hq hc.node_le)

/-- A network that meets the cluster and is no longer than its prefix meets every block. -/
theorem overlaps_block_of_le (hov : Overlaps (clusterNet f c q) (clusterNet f a p)) (hqp : q ≤ p)
    {j : Nat} (hj : j < 2 ^ (m - p)) :
    Overlaps ((initial f a p m).indexToCIDRBlock j) (clusterNet f c q) := by
  have hp : p ≤ f.width := le_trans hc.le_node hc.node_le
  have hmin := (overlaps_clusterNet hcp (hc.plain a rfl) hq hp).mp hov
  rw [Nat.min_eq_left hqp] at hmin
  -- the block is in the cluster, which agrees with the network on its prefix
  have hblock : top (blockAddress f a m j) q = top a q :=
    top_eq_of_le hqp hp (mem_block hc hj rfl).1
  rw [indexToCIDRBlock_eq hc hj]
  refine (overlaps_clusterNet (plain_blockAddress hc hj) hcp hc.node_le hq).mpr ?_
  rw [Nat.min_eq_right (le_trans hqp hc.le_node), hblock, hmin]

/-- The blocks `Occupy` and `Release` walk through for a network of the family that meets the
cluster: exactly the blocks that meet the network. -/
theorem blockRange_iff (hnet : c &&& prefixMask f.width q = c)
    (hov : Overlaps (clusterNet f c q) (clusterNet f a p)) {b e : Int}
    (hbe : (initial f a p m).getBeginningAndEndIndices (some (clusterNet f c q)) = .ok (b, e))
    (j : Nat) :
    (b ≤ j ∧ j ≤ e) ↔
      j < 2 ^ (m - p) ∧ Overlaps ((initial f a p m).indexToCIDRBlock j) (clusterNet f c q) := by
  have hcast : ((2 ^ (m - p) : Nat) : Int) = 2 ^ (m - p) := by push_cast; rfl
  by_cases hpq : p < q
  · rw [getBeginningAndEndIndices_inside hc hq hcp hov hpq] at hbe
    obtain ⟨rfl, rfl⟩ := Prod.mk.inj (Except.ok.inj hbe)
    -- the first and the last address of the network are addresses of the cluster
    have hp : p ≤ f.width := le_trans hc.le_node hc.node_le
    have hmin := (overlaps_clusterNet hcp (hc.plain a rfl) hq hp).mp hov
    have hin : top c p = top a p := by rwa [Nat.min_eq_right hpq.le] at hmin
    have hlast : top (c ||| ~~~prefixMask f.width q) p = top a p :=
      (top_or_not_prefixMask_of_le c hpq.le hq).trans hin
    have h1 := top_eq_add_mod hc hin
    have h2 := top_eq_add_mod hc hlast
    have hlt := Nat.mod_lt (top (c ||| ~~~prefixMask f.width q) m) (Nat.two_pow_pos (m - p))
    constructor
    · rintro ⟨hb, he⟩
      have hjN : j < 2 ^ (m - p) := by omega
      exact ⟨hjN, (overlaps_block_iff hc hq hcp hnet hjN).mpr ⟨by omega, by omega⟩⟩
    · rintro ⟨hjN, hovj⟩
      have := (overlaps_block_iff hc hq hcp hnet hjN).mp hovj
      omega
  · rw [getBeginningAndEndIndices_around hc hq hcp hov (not_lt.mp hpq)] at hbe
    obtain ⟨rfl, rfl⟩ := Prod.mk.inj (Except.ok.inj hbe)
    constructor
    · rintro ⟨-, he⟩
      have hjN : j < 2 ^ (m - p) := by omega
      exact ⟨hjN, overlaps_block_of_le hc hq hcp hov (not_lt.mp hpq) hjN⟩
    · rintro ⟨hjN, -⟩
      omega

/-- A network of the family that meets the cluster and is no longer than a block lies in one
block: the one of its address. -/
theorem overlaps_block_iff_of_le (hnet : c &&& prefixMask f.width q = c)
    (hov : Overlaps (clusterNet f c q) (clusterNet f a p)) (hmq : m ≤ q) {j : Nat}
    (hj : j < 2 ^ (m - p)) :
    Overlaps ((initial f a p m).indexToCIDRBlock j) (clusterNet f c q) ↔
      j = top c m % 2 ^ (m - p) := by
  by_cases hpq : p < q
  · have hp : p ≤ f.width := le_trans hc.le_node hc.node_le
    have hmin := (overlaps_clusterNet hcp (hc.plain a rfl) hq hp).mp hov
    have hin : top c p = top a p := by rwa [Nat.min_eq_right hpq.le] at hmin
    have h1 := top_eq_add_mod hc hin
    rw [overlaps_block_iff hc hq hcp hnet hj, top_or_not_prefixMask_of_le c hmq hq]
    omega
  · -- the network, the cluster and the blocks have one prefix: there is one block
    have hN : m - p = 0 := by have := hc.le_node; omega
    rw [hN, Nat.pow_zero] at hj ⊢
    rw [Nat.mod_one, Nat.lt_one_iff.mp hj]
    exact iff_of_true (overlaps_block_of_le hc hq hcp hov (not_lt.mp hpq) (Nat.two_pow_pos _)) rfl

end Network

/-! ## The calls and the runs -/

theorem occupy_of_indices {cidr : Option IPNet} {b e : Int}
    (hbe : s.getBeginningAndEndIndices cidr = .ok (b, e)) :
    s.occupy cidr = markRange true s b (e - b + 1).toNat := by
  simp only [CidrSet.occupy, hbe, bind, Except.bind]

theorem release_of_indices {cidr : Option IPNet} {b e : Int}
    (hbe : s.getBeginningAndEndIndices cidr = .ok (b, e)) :
    s.release cidr = markRange false s b (e - b + 1).toNat := by
  simp only [CidrSet.release, hbe, bind, Except.bind]

theorem occupy_of_indices_error {cidr : Option IPNet} {err : CidrError}
    (hbe : s.getBeginningAndEndIndices cidr = .error err) : s.occupy cidr = .error err := by
  simp only [CidrSet.occupy, hbe, bind, Except.bind]

theorem release_of_indices_error {cidr : Option IPNet} {err : CidrError}
    (hbe : s.getBeginningAndEndIndices cidr = .error err) : s.release cidr = .error err := by
  simp only [CidrSet.release, hbe, bind, Except.bind]

/-- The loop of `Occupy` (`v = true`) or `Release` (`v = false`) on a network of the family that
meets the cluster, from a `Ledger`: the bits of exactly the blocks that meet the network become
`v`, and the state is a `Ledger` again. -/
theorem Ledger.markRange_network (hc : ClusterCIDR f a p m) (h : Ledger f a p m s)
    {c : BitVec f.width} {q : Nat} (hq : q ≤ f.width) (hcp : f.Plain c)
    (hnet : c &&& prefixMask f.width q = c) (hov : Overlaps (clusterNet f c q) (clusterNet f a p))
    (v : Bool) :
    ∃ b e, s.getBeginningAndEndIndices (some (clusterNet f c q)) = .ok (b, e) ∧
      ∃ t, Cidrset.CidrSet.markRange v s b (e - b + 1).toNat = .ok t ∧ Ledger f a p m t ∧
        ∀ j : Nat,
          (j < 2 ^ (m - p) ∧ Overlaps (s.indexToCIDRBlock j) (clusterNet f c q) →
            t.used.testBit j = v) ∧
          (¬(j < 2 ^ (m - p) ∧ Overlaps (s.indexToCIDRBlock j) (clusterNet f c q)) →
            t.used.testBit j = s.used.testBit j) := by
  obtain ⟨b, e, hbe⟩ : ∃ b e,
      (initial f a p m).getBeginningAndEndIndices (some (clusterNet f c q)) = .ok (b, e) := by
    by_cases hpq : p < q
    · exact ⟨_, _, getBeginningAndEndIndices_inside hc hq hcp hov hpq⟩
    · exact ⟨_, _, getBeginningAndEndIndices_around hc hq hcp hov (not_lt.mp hpq)⟩
  have hbe' : s.getBeginningAndEndIndices (some (clusterNet f c q)) = .ok (b, e) := by
    rw [h.getBeginningAndEndIndices]
    exact hbe
  obtain ⟨hb, hbN, he⟩ := h.getBeginningAndEndIndices_lt hc hbe'
  obtain ⟨t, hrun, ht, hbits⟩ := h.markRange v hb hbN he
  have hrange := blockRange_iff hc hq hcp hnet hov hbe
  rw [h.indexToCIDRBlock]
  refine ⟨b, e, hbe', t, hrun, ht, fun j => ⟨fun hj => ?_, fun hj => ?_⟩⟩
  · rw [hbits j, if_pos ((hrange j).mpr hj)]
  · rw [hbits j, if_neg (mt (hrange j).mp hj)]

/-- The calls that write a `CidrSet`. -/
inductive Call
  | allocateNext
  | occupy (cidr : Option IPNet)
  | release (cidr : Option IPNet)

/-- A call that returns without an error, and the state it leaves; a call that fails returns
before it writes anything. -/
inductive Step : CidrSet → Call → CidrSet → Prop
  | allocateNext {s t : CidrSet} {r : IPNet} : s.allocateNext = .ok (r, t) → Step s .allocateNext t
  | occupy {s t : CidrSet} (cidr : Option IPNet) : s.occupy cidr = .ok t → Step s (.occupy cidr) t
  | release {s t : CidrSet} (cidr : Option IPNet) : s.release cidr = .ok t → Step s (.release cidr) t

/-- The loop of a call that returned on a `Ledger` leaves a `Ledger`, whatever the network. -/
theorem Ledger.of_indices (hc : ClusterCIDR f a p m) (h : Ledger f a p m s) (v : Bool)
    {cidr : Option IPNet} {b e : Int} (hbe : s.getBeginningAndEndIndices cidr = .ok (b, e))
    {t : CidrSet} (hrun : Cidrset.CidrSet.markRange v s b (e - b + 1).toNat = .ok t) :
    Ledger f a p m t := by
  obtain ⟨hb, hbN, he⟩ := h.getBeginningAndEndIndices_lt hc hbe
  obtain ⟨t', hrun', ht', -⟩ := h.markRange v hb hbN he
  rw [hrun'] at hrun
  cases hrun
  exact ht'

/-- Every call that returns keeps the state a `Ledger`. -/
theorem Ledger.step (hc : ClusterCIDR f a p m) (h : Ledger f a p m s) {call : Call} {t : CidrSet}
    (hs : Step s call t) : Ledger f a p m t := by
  cases hs with
  | allocateNext hok =>
      obtain ⟨i, hi, hclear, -, rfl⟩ := h.allocateNext.2 _ _ hok
      exact h.allocated hi hclear
  | occupy cidr hok =>
      unfold CidrSet.occupy at hok
      obtain ⟨⟨b, e⟩, hbe, hrun⟩ := bind_eq_ok.mp hok
      exact h.of_indices hc true hbe hrun
  | release cidr hok =>
      unfold CidrSet.release at hok
      obtain ⟨⟨b, e⟩, hbe, hrun⟩ := bind_eq_ok.mp hok
      exact h.of_indices hc false hbe hrun

theorem ledger_of_reachable (hc : ClusterCIDR f a p m)
    (hs : Reachable (· = initial f a p m) Step s) : Ledger f a p m s :=
  Inductive.reachable ⟨fun _ h => h ▸ ledger_initial, fun _ _ _ h hstep => h.step hc hstep⟩ hs

theorem cidrSet_bookkeeping (hc : ClusterCIDR f a p m) :
    newCIDRSet (clusterNet f a p) m = .ok (initial f a p m) ∧
    ∀ s, Reachable (· = initial f a p m) Step s →
      s.maxCIDRs = 2 ^ (m - p) ∧
      s.allocatedCIDRs = (usedBlocks (2 ^ (m - p)) s.used).card ∧
      (∀ i, s.used.testBit i = true → i < 2 ^ (m - p)) ∧
      0 ≤ s.allocatedCIDRs ∧ s.allocatedCIDRs ≤ s.maxCIDRs ∧
      ((∃ err, s.allocateNext = .error err) ↔ ∀ i < 2 ^ (m - p), s.used.testBit i = true) ∧
      (∀ r t, s.allocateNext = .ok (r, t) → ∃ i : Nat, i < 2 ^ (m - p) ∧
        s.used.testBit i = false ∧ r = s.indexToCIDRBlock i ∧ t.used = setBit s.used i true ∧
        t.allocatedCIDRs = s.allocatedCIDRs + 1) ∧
      ∀ (c : BitVec f.width) (q : Nat), q ≤ f.width → f.Plain c →
        c &&& prefixMask f.width q = c →
        (Overlaps (clusterNet f c q) (clusterNet f a p) →
          (∃ t, s.occupy (some (clusterNet f c q)) = .ok t ∧ ∀ j : Nat,
            (t.used.testBit j = true ↔
              (j < 2 ^ (m - p) ∧ Overlaps (s.indexToCIDRBlock j) (clusterNet f c q)) ∨
                s.used.testBit j = true)) ∧
          (∃ t, s.release (some (clusterNet f c q)) = .ok t ∧ ∀ j : Nat,
            (t.used.testBit j = true ↔
              ¬(j < 2 ^ (m - p) ∧ Overlaps (s.indexToCIDRBlock j) (clusterNet f c q)) ∧
                s.used.testBit j = true)) ∧
          (q ≤ p → ∀ j : Nat, j < 2 ^ (m - p) →
            Overlaps (s.indexToCIDRBlock j) (clusterNet f c q)) ∧
          (m ≤ q → ∀ j : Nat, j < 2 ^ (m - p) →
            (Overlaps (s.indexToCIDRBlock j) (clusterNet f c q) ↔ j = top c m % 2 ^ (m - p)))) ∧
        (¬Overlaps (clusterNet f c q) (clusterNet f a p) →
          s.occupy (some (clusterNet f c q)) =
              .error (.outOfClusterRange (clusterNet f c q) (clusterNet f a p)) ∧
          s.release (some (clusterNet f c q)) =
              .error (.outOfClusterRange (clusterNet f c q) (clusterNet f a p))) := by
  refine ⟨newCIDRSet_eq hc, fun s hs => ?_⟩
  have h := ledger_of_reachable hc hs
  obtain ⟨hfull, halloc⟩ := h.allocateNext
  refine ⟨h.maxCIDRs, h.count, h.bits_lt, h.allocatedCIDRs_le.1, h.allocatedCIDRs_le.2, hfull,
    fun r t hok => ?_, fun c q hq hcp hnet => ⟨fun hov => ?_, fun hout => ?_⟩⟩
  · obtain ⟨i, hi, hclear, hr, rfl⟩ := halloc r t hok
    exact ⟨i, hi, hclear, hr, rfl, rfl⟩
  · -- the loop sets, or clears, the bits of exactly the blocks that meet the network
    obtain ⟨b, e, hbe, t, hrun, -, hbits⟩ := h.markRange_network hc hq hcp hnet hov true
    obtain ⟨b', e', hbe', t', hrun', -, hbits'⟩ := h.markRange_network hc hq hcp hnet hov false
    rw [h.indexToCIDRBlock]
    refine ⟨⟨t, by rw [occupy_of_indices hbe, hrun], fun j => ?_⟩,
      ⟨t', by rw [release_of_indices hbe', hrun'], fun j => ?_⟩,
      fun hqp j hj => overlaps_block_of_le hc hq hcp hov hqp hj,
      fun hmq j hj => overlaps_block_iff_of_le hc hq hcp hnet hov hmq hj⟩
    · rw [h.indexToCIDRBlock] at hbits
      by_cases hj : j < 2 ^ (m - p) ∧ Overlaps ((initial f a p m).indexToCIDRBlock j) (clusterNet f c q)
      · simp [(hbits j).1 hj, hj]
      · simp [(hbits j).2 hj, hj]
    · rw [h.indexToCIDRBlock] at hbits'
      by_cases hj : j < 2 ^ (m - p) ∧ Overlaps ((initial f a p m).indexToCIDRBlock j) (clusterNet f c q)
      · simp [(hbits' j).1 hj, hj]
      · simp [(hbits' j).2 hj, hj]
  · -- a network that misses the cluster: both calls fail before they write
    have hbe : s.getBeginningAndEndIndices (some (clusterNet f c q)) =
        .error (.outOfClusterRange (clusterNet f c q) (clusterNet f a p)) := by
      rw [h.getBeginningAndEndIndices]
      exact getBeginningAndEndIndices_outside hc hq hcp hout
    exact ⟨occupy_of_indices_error hbe, release_of_indices_error hbe⟩

theorem cidrSet_bookkeeping_ten_eight :
    ClusterCIDR .v4 0x0a000000 8 12 ∧
      newCIDRSet (clusterNet .v4 0x0a000000 8) 12 = .ok (initial .v4 0x0a000000 8 12) ∧
      ∀ s, Reachable (· = initial .v4 0x0a000000 8 12) Step s →
        s.maxCIDRs = 2 ^ (12 - 8) ∧
        s.allocatedCIDRs = (usedBlocks (2 ^ (12 - 8)) s.used).card ∧
        (∀ i, s.used.testBit i = true → i < 2 ^ (12 - 8)) ∧
        0 ≤ s.allocatedCIDRs ∧ s.allocatedCIDRs ≤ s.maxCIDRs ∧
        ((∃ err, s.allocateNext = .error err) ↔ ∀ i < 2 ^ (12 - 8), s.used.testBit i = true) ∧
        (∀ r t, s.allocateNext = .ok (r, t) → ∃ i : Nat, i < 2 ^ (12 - 8) ∧
          s.used.testBit i = false ∧ r = s.indexToCIDRBlock i ∧ t.used = setBit s.used i true ∧
          t.allocatedCIDRs = s.allocatedCIDRs + 1) ∧
        ∀ (c : BitVec 32) (q : Nat), q ≤ Family.v4.width → Family.v4.Plain c →
          c &&& prefixMask Family.v4.width q = c →
          (Overlaps (clusterNet .v4 c q) (clusterNet .v4 0x0a000000 8) →
            (∃ t, s.occupy (some (clusterNet .v4 c q)) = .ok t ∧ ∀ j : Nat,
              (t.used.testBit j = true ↔
                (j < 2 ^ (12 - 8) ∧ Overlaps (s.indexToCIDRBlock j) (clusterNet .v4 c q)) ∨
                  s.used.testBit j = true)) ∧
            (∃ t, s.release (some (clusterNet .v4 c q)) = .ok t ∧ ∀ j : Nat,
              (t.used.testBit j = true ↔
                ¬(j < 2 ^ (12 - 8) ∧ Overlaps (s.indexToCIDRBlock j) (clusterNet .v4 c q)) ∧
                  s.used.testBit j = true)) ∧
            (q ≤ 8 → ∀ j : Nat, j < 2 ^ (12 - 8) →
              Overlaps (s.indexToCIDRBlock j) (clusterNet .v4 c q)) ∧
            (12 ≤ q → ∀ j : Nat, j < 2 ^ (12 - 8) →
              (Overlaps (s.indexToCIDRBlock j) (clusterNet .v4 c q) ↔ j = top c 12 % 2 ^ (12 - 8)))) ∧
          (¬Overlaps (clusterNet .v4 c q) (clusterNet .v4 0x0a000000 8) →
            s.occupy (some (clusterNet .v4 c q)) =
                .error (.outOfClusterRange (clusterNet .v4 c q) (clusterNet .v4 0x0a000000 8)) ∧
            s.release (some (clusterNet .v4 c q)) =
                .error (.outOfClusterRange (clusterNet .v4 c q) (clusterNet .v4 0x0a000000 8))) := by
  have hc : ClusterCIDR .v4 0x0a000000 8 12 :=
    ⟨by decide, by decide, by decide, by decide, fun _ _ => trivial⟩
  exact ⟨hc, cidrSet_bookkeeping hc⟩

/-- Two clusters outside `ClusterCIDR`.  `::fffe:0:0/95` with `/96` nodes keeps within the
bound `NewCIDRSet` checks, but its block `1` is `::ffff:0.0.0.0/96`, which `getIndexForIP` reads
as IPv4 and indexes as `0`: `Occupy` of that block sets the bit of block `0` and leaves its own
clear.  With `0.0.0.0/0` and `/32` nodes `uint32(maxCIDRs)` is `0`, and `Occupy` of
`10.0.0.0/8`, inside the cluster, fails as out of the allocator's range. -/
theorem cidrSet_occupy_wrong_block :
    (∃ s, newCIDRSet ⟨.v6 0xfffe00000000, .v6 (prefixMask 128 95)⟩ 96 = .ok s ∧
      s.indexToCIDRBlock 1 = ⟨.v6 0xffff00000000, .v6 (prefixMask 128 96)⟩ ∧
      ∃ t, s.occupy (some (s.indexToCIDRBlock 1)) = .ok t ∧
        t.used.testBit 0 = true ∧ t.used.testBit 1 = false) ∧
    (∃ s, newCIDRSet ⟨.v4 0, .v4 (prefixMask 32 0)⟩ 32 = .ok s ∧
      s.occupy (some (clusterNet .v4 0x0a000000 8)) =
        .error (.outOfAllocatorRange (.v4 0x0a000000) 32)) := by
  set_option maxRecDepth 4000 in
  exact ⟨⟨_, rfl, by decide, _, rfl, by decide, by decide⟩, ⟨_, rfl, by decide⟩⟩

end Cidrset
end Kubernetes
