import Kubernetes.Cacher.WatchCache
import Kubernetes.Transition.Reachable
import Mathlib.Tactic.Set
import Mathlib.Order.MinMax

/-!
# The window invariant of the watch cache

What the cyclic buffer is for: after a `Replace`, the cache has been told a log of events,
and the positions `startIndex .. endIndex - 1` (modulo the capacity) hold the last
`endIndex - startIndex` of them, in order.  `WatchCache.Window` states this together with
the bounds of the buffer; `Window.processEvent` is the step lemma (through the two
resizes and the eviction of `updateCache`) and `Tracked.Inv.reachable` the run lemma.

The copy loop of a resize writes each position of the window at its residue modulo the
new capacity; positions that differ by less than the capacity have different residues
(`mod_ne_of_lt_of_lt_add`), so no copied event overwrites another.
-/

namespace Kubernetes
namespace Cacher

open Transition

variable {α : Type}

/-! ## Residues and the copy loop -/

/-- Two positions less than `c` apart lie in different slots. -/
theorem mod_ne_of_lt_of_lt_add {c i k : Nat} (hik : i < k) (hk : k < i + c) : k % c ≠ i % c := by
  intro hmod
  have hsub : (k - i) % c = 0 := Nat.sub_mod_eq_zero_of_mod_eq hmod
  rw [Nat.mod_eq_of_lt (by omega)] at hsub
  omega

/-- The copy loop leaves alone every slot it does not write. -/
theorem copyLoop_of_ne (old : Nat → Option (WatchCacheEvent α)) (oc c : Nat) :
    ∀ (n i : Nat) (newCache : Nat → Option (WatchCacheEvent α)) (j : Nat),
      (∀ k, i ≤ k → k < i + n → k % c ≠ j) → copyLoop old oc c n i newCache j = newCache j := by
  intro n
  induction n with
  | zero => intro i newCache j _; rfl
  | succ n ih =>
      intro i newCache j hne
      unfold copyLoop
      rw [ih (i + 1) _ j (fun k hk hkn => hne k (by omega) (by omega))]
      exact Function.update_of_ne (fun h => hne i (Nat.le_refl i) (by omega) h.symm) _ _

/-- The copy loop moves each of the `n ≤ c` positions from `i` on to its new slot. -/
theorem copyLoop_spec (old : Nat → Option (WatchCacheEvent α)) (oc c : Nat) :
    ∀ (n i : Nat) (newCache : Nat → Option (WatchCacheEvent α)), n ≤ c →
      ∀ k, i ≤ k → k < i + n → copyLoop old oc c n i newCache (k % c) = old (k % oc) := by
  intro n
  induction n with
  | zero => intro i newCache _ k hik hkn; omega
  | succ n ih =>
      intro i newCache hn k hik hkn
      unfold copyLoop
      rcases Nat.lt_or_ge i k with hlt | hge
      · exact ih (i + 1) _ (by omega) k hlt (by omega)
      · -- the position written first is not written again: the later ones are in other slots
        have hki : k = i := by omega
        subst hki
        rw [copyLoop_of_ne old oc c n (k + 1) _ (k % c)
          (fun k' hk' hk'n => mod_ne_of_lt_of_lt_add (by omega) (by omega))]
        exact Function.update_self _ _ _

/-! ## The invariant -/

namespace WatchCache

/-- The bounds of the capacity. -/
structure Bounds (w : WatchCache α) : Prop where
  lower_pos : 0 < w.lowerBoundCapacity
  lower_le : w.lowerBoundCapacity ≤ w.capacity
  le_upper : w.capacity ≤ w.upperBoundCapacity

/-- The window invariant: the buffer holds the last `endIndex - startIndex` events of
`log`, the events processed since the last `Replace`, each at its position modulo the
capacity; once an event has been evicted the window holds at least
`lowerBoundCapacity` events. -/
structure Window (w : WatchCache α) (log : List (WatchCacheEvent α)) : Prop where
  bounds : w.Bounds
  start_le : w.startIndex ≤ w.endIndex
  size_le : w.endIndex ≤ w.startIndex + w.capacity
  end_eq : w.endIndex = log.length
  cached : ∀ i (h : i < log.length), w.startIndex ≤ i → w.cache (i % w.capacity) = some log[i]
  evicted : 0 < w.startIndex → w.startIndex + w.lowerBoundCapacity ≤ w.endIndex

theorem newWatchCache_bounds : (newWatchCache : WatchCache α).Bounds := by
  refine ⟨?_, ?_, ?_⟩ <;> simp [newWatchCache, defaultLowerBoundCapacity, defaultUpperBoundCapacity]

section

variable {w : WatchCache α} {log : List (WatchCacheEvent α)}

theorem Window.capacity_pos (hw : w.Window log) : 0 < w.capacity :=
  Nat.lt_of_lt_of_le hw.bounds.lower_pos hw.bounds.lower_le

/-- `Replace` empties the window. -/
theorem Bounds.replace (hb : w.Bounds) (version : Nat) : (w.replace version).Window [] where
  bounds := ⟨hb.lower_pos, hb.lower_le, hb.le_upper⟩
  start_le := Nat.le_refl 0
  size_le := Nat.zero_le _
  end_eq := rfl
  cached := fun i h => absurd h (Nat.not_lt_zero i)
  evicted := fun h => absurd h (Nat.lt_irrefl 0)

/-- A resize to a capacity within the bounds keeps the window; a shrink is only done on a
full buffer and drops its oldest events. -/
theorem Window.doCacheResizeLocked (hw : w.Window log) {c : Nat}
    (hlower : w.lowerBoundCapacity ≤ c) (hupper : c ≤ w.upperBoundCapacity)
    (hfull : c < w.capacity → w.endIndex = w.startIndex + w.capacity) :
    (w.doCacheResizeLocked c).Window log := by
  -- the new start, and the facts about it that every field needs
  set s' := if c < w.capacity then w.endIndex - c else w.startIndex with hs'
  have hstart : w.startIndex ≤ s' ∧ s' ≤ w.endIndex ∧ w.endIndex ≤ s' + c ∧
      (0 < s' → s' + w.lowerBoundCapacity ≤ w.endIndex) := by
    have := hw.start_le
    have := hw.size_le
    rw [hs']
    split_ifs with hc
    · have := hfull hc
      omega
    · exact ⟨Nat.le_refl _, hw.start_le, by omega, hw.evicted⟩
  obtain ⟨hss, hse, hsize, hev⟩ := hstart
  refine ⟨⟨hw.bounds.lower_pos, hlower, hupper⟩, hse, hsize, hw.end_eq, ?_, hev⟩
  intro i hi hsi
  show copyLoop w.cache w.capacity c (w.endIndex - s') s' (fun _ => none) (i % c) = some log[i]
  rw [copyLoop_spec w.cache w.capacity c _ s' _ (by omega) i hsi (by have := hw.end_eq; omega)]
  exact hw.cached i hi (Nat.le_trans hss hsi)

/-- `resizeCacheLocked` keeps the window. -/
theorem Window.resizeCacheLocked (hw : w.Window log) (eventTime : Int) :
    (w.resizeCacheLocked eventTime).Window log := by
  have hb := hw.bounds
  unfold WatchCache.resizeCacheLocked
  dsimp only
  split_ifs with hgrow hbigger hshrink hsmaller
  · -- grow: doubled, but not past the upper bound
    exact hw.doCacheResizeLocked (by have := hb.lower_le; omega) (Nat.min_le_right _ _)
      (fun h => absurd h (by omega))
  · exact hw
  · -- shrink: halved, but not below the lower bound, and only when full
    refine hw.doCacheResizeLocked (Nat.le_max_right _ _) (by have := hb.le_upper; omega) ?_
    intro _
    simpa [WatchCache.isCacheFullLocked] using hshrink.1
  · exact hw
  · exact hw

/-- The window after the eviction of `updateCache`: there is room for one more event. -/
structure Room (w : WatchCache α) (log : List (WatchCacheEvent α)) : Prop where
  bounds : w.Bounds
  start_le : w.startIndex ≤ w.endIndex
  room : w.endIndex < w.startIndex + w.capacity
  end_eq : w.endIndex = log.length
  cached : ∀ i (h : i < log.length), w.startIndex ≤ i → w.cache (i % w.capacity) = some log[i]
  evicted : 0 < w.startIndex → w.startIndex + w.lowerBoundCapacity ≤ w.endIndex + 1

/-- The eviction makes room: a full buffer gives up its oldest event. -/
theorem Window.evictIfFull (hw : w.Window log) : w.evictIfFull.Room log := by
  have hcap := hw.capacity_pos
  have hlow := hw.bounds.lower_le
  unfold WatchCache.evictIfFull
  split_ifs with hfull
  · simp only [WatchCache.isCacheFullLocked, decide_eq_true_eq] at hfull
    refine ⟨⟨hw.bounds.lower_pos, hlow, hw.bounds.le_upper⟩, ?_, ?_, hw.end_eq, ?_, ?_⟩
    · show w.startIndex + 1 ≤ w.endIndex
      omega
    · show w.endIndex < w.startIndex + 1 + w.capacity
      omega
    · intro i hi hsi
      exact hw.cached i hi (by have : w.startIndex + 1 ≤ i := hsi; omega)
    · intro _
      show w.startIndex + 1 + w.lowerBoundCapacity ≤ w.endIndex + 1
      omega
  · simp only [WatchCache.isCacheFullLocked, decide_eq_true_eq] at hfull
    have := hw.size_le
    exact ⟨hw.bounds, hw.start_le, by omega, hw.end_eq, hw.cached,
      fun h => by have := hw.evicted h; omega⟩

/-- The write fills the room with the event, in a slot no other cached event uses. -/
theorem Room.append (hr : w.Room log) (e : WatchCacheEvent α) :
    (w.append e).Window (log ++ [e]) := by
  have hlen := hr.end_eq
  refine ⟨⟨hr.bounds.lower_pos, hr.bounds.lower_le, hr.bounds.le_upper⟩, ?_, ?_, ?_, ?_, hr.evicted⟩
  · show w.startIndex ≤ w.endIndex + 1
    have := hr.start_le
    omega
  · show w.endIndex + 1 ≤ w.startIndex + w.capacity
    have := hr.room
    omega
  · show w.endIndex + 1 = (log ++ [e]).length
    simp [hlen]
  · intro i hi hsi
    replace hsi : w.startIndex ≤ i := hsi
    show Function.update w.cache (w.endIndex % w.capacity) (some e) (i % w.capacity) = _
    rw [List.length_append, List.length_singleton] at hi
    rcases Nat.lt_or_ge i log.length with hold | hnew
    · -- an older event: less than the capacity before the new one, so in another slot
      have hroom := hr.room
      rw [Function.update_of_ne (mod_ne_of_lt_of_lt_add (i := i) (k := w.endIndex) (by omega) (by omega)).symm,
        List.getElem_append_left hold]
      exact hr.cached i hold hsi
    · have hi' : i = w.endIndex := by omega
      subst hi'
      rw [Function.update_self]
      simp [hlen]

/-- The step lemma: processing an event appends it to the window, evicting the oldest
event of a full buffer. -/
theorem Window.processEvent (hw : w.Window log) (e : WatchCacheEvent α) :
    (w.processEvent e).Window (log ++ [e]) := by
  have h := ((hw.resizeCacheLocked e.recordTime).evictIfFull).append e
  -- the resource version is not part of the window
  exact ⟨⟨h.bounds.lower_pos, h.bounds.lower_le, h.bounds.le_upper⟩, h.start_le, h.size_le, h.end_eq,
    h.cached, h.evicted⟩

@[simp] theorem listResourceVersion_processEvent (e : WatchCacheEvent α) :
    (w.processEvent e).listResourceVersion = w.listResourceVersion := by
  unfold WatchCache.processEvent WatchCache.updateCache WatchCache.append WatchCache.evictIfFull
    WatchCache.resizeCacheLocked WatchCache.doCacheResizeLocked
  dsimp only
  split_ifs <;> rfl

end

end WatchCache

/-! ## The watch cache between two `Replace`s -/

/-- The watch cache together with the log of the events processed since the last
`Replace`. -/
structure Tracked (α : Type) where
  cache : WatchCache α
  log : List (WatchCacheEvent α)

/-- What happens between two `Replace`s: `Add`, `Update` and `Delete` events, each with a
resource version above the cache's. -/
inductive Step : Tracked α → WatchCacheEvent α → Tracked α → Prop
  | processEvent (s : Tracked α) (e : WatchCacheEvent α)
      (hrv : s.cache.resourceVersion < e.resourceVersion) :
      Step s e ⟨s.cache.processEvent e, s.log ++ [e]⟩

/-- The state right after `Replace` at `version`. -/
def Tracked.afterReplace (w : WatchCache α) (version : Nat) : Tracked α :=
  ⟨w.replace version, []⟩
attribute [grind] Tracked.afterReplace

/-- The resource versions after a `Replace` at `L`: the log's versions increase, lie above
`L`, and end at the cache's resource version. -/
structure Tracked.Versions (L : Nat) (s : Tracked α) : Prop where
  list_eq : s.cache.listResourceVersion = L
  increasing : s.log.Pairwise fun a b => a.resourceVersion < b.resourceVersion
  above : ∀ e ∈ s.log, L < e.resourceVersion
  list_le_current : L ≤ s.cache.resourceVersion
  le_current : ∀ e ∈ s.log, e.resourceVersion ≤ s.cache.resourceVersion

/-- The invariant of the watch cache after a `Replace` at `L`. -/
structure Tracked.Inv (L : Nat) (s : Tracked α) : Prop where
  window : s.cache.Window s.log
  versions : s.Versions L

theorem Tracked.Versions.step {L : Nat} {s t : Tracked α} {e : WatchCacheEvent α}
    (hv : s.Versions L) (hstep : Step s e t) : t.Versions L := by
  cases hstep with
  | processEvent hrv =>
      refine ⟨by simp [hv.list_eq], ?_, ?_, ?_, ?_⟩
      · refine List.pairwise_append.2 ⟨hv.increasing, List.pairwise_singleton _ _, ?_⟩
        intro a ha b hb
        rw [List.mem_singleton] at hb
        subst hb
        exact Nat.lt_of_le_of_lt (hv.le_current a ha) hrv
      · intro a ha
        rcases List.mem_append.1 ha with ha | ha
        · exact hv.above a ha
        · rw [List.mem_singleton.1 ha]
          exact Nat.lt_of_le_of_lt hv.list_le_current hrv
      · exact Nat.le_of_lt (Nat.lt_of_le_of_lt hv.list_le_current hrv)
      · intro a ha
        rcases List.mem_append.1 ha with ha | ha
        · exact Nat.le_of_lt (Nat.lt_of_le_of_lt (hv.le_current a ha) hrv)
        · rw [List.mem_singleton.1 ha]
          exact Nat.le_refl _

/-- The step lemma of the tracked cache. -/
theorem Tracked.Inv.step {L : Nat} {s t : Tracked α} {e : WatchCacheEvent α} (hinv : s.Inv L)
    (hstep : Step s e t) : t.Inv L := by
  refine ⟨?_, hinv.versions.step hstep⟩
  cases hstep with
  | processEvent _ => exact hinv.window.processEvent e

/-- The invariant holds after every `Replace` on a cache within its bounds and is kept by
every event. -/
theorem Tracked.inv_inductive {w : WatchCache α} (hw : w.Bounds) (L : Nat) :
    Inductive (· = Tracked.afterReplace w L) Step (Tracked.Inv L) where
  init := by
    rintro s rfl
    exact ⟨hw.replace L, rfl, List.Pairwise.nil, fun _ h => absurd h List.not_mem_nil,
      Nat.le_refl L, fun _ h => absurd h List.not_mem_nil⟩
  step := fun _ _ _ hinv hstep => hinv.step hstep

/-- The run lemma: every state reached after a `Replace` keeps the invariant. -/
theorem Tracked.Inv.reachable {w : WatchCache α} (hw : w.Bounds) {L : Nat} {s : Tracked α}
    (hs : Reachable (· = Tracked.afterReplace w L) Step s) : s.Inv L :=
  (Tracked.inv_inductive hw L).reachable hs

end Cacher
end Kubernetes
