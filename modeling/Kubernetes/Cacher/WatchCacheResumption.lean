import Kubernetes.Cacher.WatchCacheWindow

/-!
# Resuming a watch from the watch cache

`getAllEventsSinceLocked r` is how a watch resumes at resource version `r`: it fails with
`ResourceExpired` when events newer than `r` may already have been evicted, and otherwise
returns an interval over the window from the first event newer than `r`.  The interval is
read lazily: each `Next` that finds its buffer empty checks that its position has not been
evicted meanwhile and copies up to `bufferSize` events out of the cache as it is then,
after any number of further events and resizes.

The results, for a `Replace` at `L > 0`:
* `Tracked.Inv.getAllEventsSinceLocked_of_tooOld` and `..._of_not_tooOld`: the expiry
  condition is `Tracked.TooOld`, and an interval covers exactly the logged events newer
  than `r` (`filter_eq_drop` over the binary search's split);
* `WatchCacheInterval.next_cases`: what one `Next` can do, given the window invariant;
* `ReadInv`, kept by events and by `Next` (`ReadInv.step`): what the reader has been
  given, followed by what the interval still holds, is the list of events it must see;
* `watchCache_resumption` puts these together over every run of a reader.

A `Replace` at `0` happens only in tests that fill the buffer without a list; there the
oldest cached event decides, evicted or not, and `TooOld` does not describe it.
-/

namespace Kubernetes
namespace Cacher

open Go Transition

variable {α : Type}

namespace WatchCache

variable {w : WatchCache α} {log : List (WatchCacheEvent α)}

theorem Window.resourceVersionAt (hw : w.Window log) {i : Nat} (hi : i < log.length)
    (hs : w.startIndex ≤ i) : w.resourceVersionAt i = log[i].resourceVersion := by
  unfold WatchCache.resourceVersionAt
  rw [hw.cached i hi hs]

/-- Once an event has been evicted, the window is not empty. -/
theorem Window.start_lt_of_pos (hw : w.Window log) (h : 0 < w.startIndex) :
    w.startIndex < log.length := by
  have := hw.evicted h
  have := hw.bounds.lower_pos
  have := hw.end_eq
  omega

end WatchCache

/-! ## Which resource versions are served -/

/-- The versions `getAllEventsSinceLocked` refuses after a `Replace` at `L > 0`, in terms of
the log: while no event has left the buffer (`startIndex = 0`) the oldest deliverable event is
`L + 1`, so versions below `L`; once one has, it is the event at `startIndex`, so versions
more than one below its resource version. -/
def Tracked.TooOld (L : Nat) (s : Tracked α) (r : Nat) : Prop :=
  (s.cache.startIndex = 0 ∧ r < L) ∨
    (0 < s.cache.startIndex ∧ ∃ e, s.log[s.cache.startIndex]? = some e ∧ r + 1 < e.resourceVersion)
attribute [grind] Tracked.TooOld

section

variable {L : Nat} {s : Tracked α}

theorem Tracked.Versions.lt_of_lt (hv : s.Versions L) {i j : Nat} (hij : i < j) (hj : j < s.log.length) :
    s.log[i].resourceVersion < s.log[j].resourceVersion :=
  List.pairwise_iff_getElem.1 hv.increasing i j (by omega) hj hij

/-- While nothing has been evicted since the `Replace`, the oldest servable version is one
past the list. -/
theorem Tracked.Inv.oldest_of_start_eq_zero (hinv : s.Inv L) (hL : 0 < L)
    (h : s.cache.startIndex = 0) : s.cache.oldest = some (L + 1) := by
  unfold WatchCache.oldest
  rw [hinv.versions.list_eq, if_pos ⟨hL, h⟩]

/-- After an eviction it is the version of the oldest cached event. -/
theorem Tracked.Inv.oldest_of_start_pos (hinv : s.Inv L) (h : 0 < s.cache.startIndex) :
    ∃ hlt : s.cache.startIndex < s.log.length,
      s.cache.oldest = some s.log[s.cache.startIndex].resourceVersion := by
  have hlt := hinv.window.start_lt_of_pos h
  refine ⟨hlt, ?_⟩
  unfold WatchCache.oldest
  have hsize : 0 < s.cache.endIndex - s.cache.startIndex := by
    have := hinv.window.end_eq
    omega
  rw [if_neg (fun hc => by omega), if_pos hsize, hinv.window.resourceVersionAt hlt (Nat.le_refl _)]

/-- A version the cache no longer covers is refused with `ResourceExpired`. -/
theorem Tracked.Inv.getAllEventsSinceLocked_of_tooOld (hinv : s.Inv L) (hL : 0 < L) {r : Nat}
    (hr : 0 < r) (storeList : List (String × α)) (hold : s.TooOld L r) :
    ∃ o, s.cache.getAllEventsSinceLocked r storeList = .error (.resourceExpired r o) := by
  unfold WatchCache.getAllEventsSinceLocked
  rcases hold with ⟨h0, hrL⟩ | ⟨hpos, e, he, hre⟩
  · rw [hinv.oldest_of_start_eq_zero hL h0]
    dsimp only
    rw [if_neg (by omega), if_pos (by omega)]
    exact ⟨_, rfl⟩
  · obtain ⟨hlt, holdest⟩ := hinv.oldest_of_start_pos hpos
    rw [holdest]
    dsimp only
    have hev : s.log[s.cache.startIndex] = e := by
      rw [List.getElem?_eq_getElem hlt] at he
      exact Option.some.inj he
    rw [if_neg (by omega), if_pos (by rw [hev]; omega)]
    exact ⟨_, rfl⟩

/-- The split the binary search of `getAllEventsSinceLocked` finds, when `r` is still
covered: every event before it is at most `r`, every event from it on is newer. -/
theorem Tracked.Inv.search_split (hinv : s.Inv L) {r : Nat} (hnew : ¬s.TooOld L r) :
    let first := search (s.cache.endIndex - s.cache.startIndex)
      fun i => decide (r < s.cache.resourceVersionAt (s.cache.startIndex + i))
    (∀ i (h : i < s.log.length), i < s.cache.startIndex + first → s.log[i].resourceVersion ≤ r) ∧
      ∀ i (h : i < s.log.length), s.cache.startIndex + first ≤ i → r < s.log[i].resourceVersion := by
  intro first
  have hw := hinv.window
  have hend := hw.end_eq
  have hstart := hw.start_le
  -- the predicate the search runs on is the version test on the window
  have hf : ∀ i (hi : s.cache.startIndex + i < s.log.length),
      (decide (r < s.cache.resourceVersionAt (s.cache.startIndex + i)) = true ↔
        r < s.log[s.cache.startIndex + i].resourceVersion) := by
    intro i hi
    rw [hw.resourceVersionAt hi (by omega), decide_eq_true_iff]
  have hmono : FalseThenTrue (s.cache.endIndex - s.cache.startIndex)
      fun i => decide (r < s.cache.resourceVersionAt (s.cache.startIndex + i)) := by
    intro i j hij hj hi
    rw [hf j (by omega)]
    rw [hf i (by omega)] at hi
    rcases Nat.lt_or_ge i j with hlt | hge
    · exact Nat.lt_trans hi (hinv.versions.lt_of_lt (by omega) (by omega))
    · have hji : j = i := by omega
      subst hji
      exact hi
  obtain ⟨hle, hbelow, habove⟩ := search_spec hmono
  constructor
  · intro i hi hlt
    rcases Nat.lt_or_ge i s.cache.startIndex with hevicted | hcached
    · -- an evicted event: older than the oldest cached one, which is at most `r + 1`
      have hpos : 0 < s.cache.startIndex := by omega
      have hslt := hw.start_lt_of_pos hpos
      have hcovered : s.log[s.cache.startIndex].resourceVersion ≤ r + 1 := by
        by_contra hc
        exact hnew (Or.inr ⟨hpos, _, List.getElem?_eq_getElem hslt, by omega⟩)
      have := hinv.versions.lt_of_lt hevicted hslt
      omega
    · have hfalse := hbelow (i - s.cache.startIndex) (by omega)
      have hiff := hf (i - s.cache.startIndex) (by omega)
      simp only [Nat.add_sub_cancel' hcached] at hiff hfalse
      by_contra hc
      rw [hiff.2 (by omega)] at hfalse
      exact absurd hfalse (by decide)
  · intro i hi hge
    have htrue := habove (i - s.cache.startIndex) (by omega) (by omega)
    have hiff := hf (i - s.cache.startIndex) (by omega)
    simp only [Nat.add_sub_cancel' (show s.cache.startIndex ≤ i by omega)] at hiff htrue
    exact hiff.1 htrue

/-- A covered version gets an interval over exactly the logged events newer than it. -/
theorem Tracked.Inv.getAllEventsSinceLocked_of_not_tooOld (hinv : s.Inv L) (hL : 0 < L) {r : Nat}
    (hr : 0 < r) (storeList : List (String × α)) (hnew : ¬s.TooOld L r) :
    ∃ wci, s.cache.getAllEventsSinceLocked r storeList = .ok wci ∧ wci.buffer = [] ∧
      wci.endIndex = s.log.length ∧
      s.log.drop wci.startIndex = s.log.filter fun e => r < e.resourceVersion := by
  obtain ⟨hbelow, habove⟩ := hinv.search_split hnew
  refine ⟨⟨s.cache.startIndex + search (s.cache.endIndex - s.cache.startIndex)
      fun i => decide (r < s.cache.resourceVersionAt (s.cache.startIndex + i)),
    s.cache.endIndex, []⟩, ?_, rfl, hinv.window.end_eq, ?_⟩
  · unfold WatchCache.getAllEventsSinceLocked
    by_cases h0 : s.cache.startIndex = 0
    · rw [hinv.oldest_of_start_eq_zero hL h0]
      dsimp only
      rw [if_neg (by omega), if_neg (fun h => hnew (Or.inl ⟨h0, by omega⟩))]
    · obtain ⟨hlt, holdest⟩ := hinv.oldest_of_start_pos (by omega)
      rw [holdest]
      dsimp only
      rw [if_neg (by omega), if_neg (fun h => hnew (Or.inr ⟨by omega, _,
        List.getElem?_eq_getElem hlt, by omega⟩))]
  · symm
    exact filter_eq_drop (fun i hi hlt => by simpa using hbelow i hi hlt)
      (fun i hi hge => by simpa using habove i hi hge)

end

/-! ## Reading an interval -/

namespace WatchCacheInterval

/-- What an interval still has to return: its buffer, then the logged events of
`[startIndex, endIndex)`. -/
def pending (wci : WatchCacheInterval α) (log : List (WatchCacheEvent α)) : List (WatchCacheEvent α) :=
  wci.buffer ++ (log.drop wci.startIndex).take (wci.endIndex - wci.startIndex)
attribute [grind] pending

/-- Later events do not change what an interval has to return. -/
theorem pending_append (wci : WatchCacheInterval α) {log : List (WatchCacheEvent α)}
    (he : wci.endIndex ≤ log.length) (e : WatchCacheEvent α) :
    wci.pending (log ++ [e]) = wci.pending log := by
  unfold pending
  by_cases hse : wci.startIndex ≤ log.length
  · rw [List.drop_append_of_le_length hse,
      List.take_append_of_le_length (by rw [List.length_drop]; omega)]
  · have h0 : wci.endIndex - wci.startIndex = 0 := by omega
    rw [h0, List.take_zero, List.take_zero]

end WatchCacheInterval

namespace WatchCache

variable {w : WatchCache α} {log : List (WatchCacheEvent α)}

/-- `fillBuffer`'s loop, on a window position: it copies the logged events, up to the fuel
and the end of the interval. -/
theorem Window.fillLoop (hw : w.Window log) {e : Nat} (he : e ≤ log.length) :
    ∀ (n i : Nat) (buffer : List (WatchCacheEvent α)), w.startIndex ≤ i →
      Cacher.fillLoop w e n i buffer =
        (i + min n (e - i), buffer ++ (log.drop i).take (min n (e - i))) := by
  intro n
  induction n with
  | zero => intro i buffer _; simp [Cacher.fillLoop]
  | succ n ih =>
      intro i buffer hi
      unfold Cacher.fillLoop
      by_cases hie : i < e
      · rw [if_pos hie, hw.cached i (by omega) hi]
        dsimp only
        rw [ih (i + 1) _ (by omega)]
        have hmin : min (n + 1) (e - i) = min n (e - (i + 1)) + 1 := by omega
        rw [hmin, List.drop_eq_getElem_cons (show i < log.length by omega), List.take_succ_cons,
          List.append_assoc, List.singleton_append,
          show i + 1 + min n (e - (i + 1)) = i + (min n (e - (i + 1)) + 1) by omega]
      · rw [if_neg hie]
        have hmin : min (n + 1) (e - i) = 0 := by omega
        rw [hmin, List.take_zero, List.append_nil, Nat.add_zero]

end WatchCache

namespace WatchCacheInterval

variable {w : WatchCache α} {log : List (WatchCacheEvent α)} {wci : WatchCacheInterval α}

/-- What one `Next` can do, on an interval that ends within the log: return the next
event it has to return, report the end when nothing is left, or fail because the events
it still has to copy have been evicted. -/
theorem next_cases (hw : w.Window log) (he : wci.endIndex ≤ log.length) :
    (∃ ev wci', wci.next w = (.ok (some ev), wci') ∧ wci.pending log = ev :: wci'.pending log ∧
        wci'.endIndex = wci.endIndex) ∨
      (wci.next w = (.ok none, wci) ∧ wci.pending log = []) ∨
      (wci.next w = (.error (invalidatedMessage wci.startIndex), wci) ∧ wci.startIndex < w.startIndex) := by
  unfold next
  rcases hbuf : wci.buffer with _ | ⟨ev, rest⟩
  · dsimp only
    by_cases hdone : wci.endIndex ≤ wci.startIndex
    · -- nothing left to copy
      rw [if_pos hdone]
      refine Or.inr (Or.inl ⟨rfl, ?_⟩)
      unfold pending
      rw [hbuf, show wci.endIndex - wci.startIndex = 0 by omega, List.take_zero, List.append_nil]
    rw [if_neg hdone]
    by_cases hvalid : w.startIndex ≤ wci.startIndex
    · -- copy a batch: the window still holds every event from `startIndex` on
      have hvalid' : w.isIndexValidLocked wci.startIndex = true := by
        simp [WatchCache.isIndexValidLocked, hvalid]
      rw [hvalid']
      simp only [Bool.not_true, Bool.false_eq_true, ↓reduceIte]
      unfold fillBuffer
      rw [hw.fillLoop he bufferSize wci.startIndex [] hvalid]
      -- the batch is not empty: at least the event at `startIndex` is copied
      obtain ⟨k, hk⟩ : ∃ k, min bufferSize (wci.endIndex - wci.startIndex) = k + 1 :=
        ⟨min bufferSize (wci.endIndex - wci.startIndex) - 1, by simp only [bufferSize]; omega⟩
      have hlt : wci.startIndex < log.length := by omega
      rw [hk, List.nil_append, List.drop_eq_getElem_cons hlt, List.take_succ_cons]
      refine Or.inl ⟨_, _, rfl, ?_, rfl⟩
      unfold pending
      dsimp only
      have hsplit : wci.endIndex - wci.startIndex = (k + 1) + (wci.endIndex - (wci.startIndex + (k + 1))) := by
        simp only [bufferSize] at hk
        omega
      rw [hbuf, List.nil_append, hsplit, List.take_add, List.drop_drop,
        List.drop_eq_getElem_cons hlt, List.take_succ_cons, List.cons_append]
    · have hinvalid : w.isIndexValidLocked wci.startIndex = false := by
        simp [WatchCache.isIndexValidLocked, hvalid]
      rw [hinvalid]
      exact Or.inr (Or.inr ⟨rfl, by omega⟩)
  · exact Or.inl ⟨ev, { wci with buffer := rest }, rfl, by simp [pending, hbuf], rfl⟩

end WatchCacheInterval

/-! ## A watch reading its interval -/

/-- A watch resumed from an interval: the cache with its log, the interval, and the events
`Next` has returned so far. -/
structure Reading (α : Type) where
  tracked : Tracked α
  interval : WatchCacheInterval α
  yielded : List (WatchCacheEvent α)

/-- What happens while a watch reads its interval. -/
inductive ReadLabel (α : Type)
  | processEvent (e : WatchCacheEvent α)
  | next

/-- Further events reach the cache (with resizes and evictions), and `Next` returns an
event or the end.  An error of `Next` ends the watch, so it is not a step. -/
inductive ReadStep : Reading α → ReadLabel α → Reading α → Prop
  | processEvent (t : Reading α) {e : WatchCacheEvent α} {tracked : Tracked α}
      (h : Step t.tracked e tracked) : ReadStep t (.processEvent e) { t with tracked := tracked }
  | next (t : Reading α) {result : Option (WatchCacheEvent α)} {wci : WatchCacheInterval α}
      (h : t.interval.next t.tracked.cache = (.ok result, wci)) :
      ReadStep t .next { t with interval := wci, yielded := t.yielded ++ result.toList }

/-- The reader's invariant for a `Replace` at `L`: what `Next` has returned, followed by
what the interval still has to return, is `target`. -/
structure ReadInv (L : Nat) (target : List (WatchCacheEvent α)) (t : Reading α) : Prop where
  inv : t.tracked.Inv L
  end_le : t.interval.endIndex ≤ t.tracked.log.length
  yielded_append : t.yielded ++ t.interval.pending t.tracked.log = target

section

variable {L : Nat} {target : List (WatchCacheEvent α)}

/-- The step lemma of the reader. -/
theorem ReadInv.step {t u : Reading α} {a : ReadLabel α} (hr : ReadInv L target t)
    (hstep : ReadStep t a u) : ReadInv L target u := by
  cases hstep with
  | processEvent h =>
      -- an event extends the log beyond the interval's end
      cases h with
      | processEvent hrv =>
          refine ⟨hr.inv.step (Step.processEvent _ _ hrv), ?_, ?_⟩
          · have := hr.end_le
            show t.interval.endIndex ≤ (t.tracked.log ++ [_]).length
            simp only [List.length_append, List.length_singleton]
            omega
          · show t.yielded ++ t.interval.pending (t.tracked.log ++ [_]) = target
            rw [t.interval.pending_append hr.end_le, hr.yielded_append]
  | next h =>
      rcases WatchCacheInterval.next_cases hr.inv.window hr.end_le with
        ⟨ev, wci', hnext, hpending, hend⟩ | ⟨hnext, hpending⟩ | ⟨hnext, _⟩
      · -- the next event: it moves from what is pending to what has been returned
        rw [hnext, Prod.mk.injEq, Except.ok.injEq] at h
        obtain ⟨rfl, rfl⟩ := h
        refine ⟨hr.inv, ?_, ?_⟩
        · show wci'.endIndex ≤ t.tracked.log.length
          rw [hend]
          exact hr.end_le
        · show t.yielded ++ [ev] ++ wci'.pending t.tracked.log = target
          rw [← hr.yielded_append, hpending, List.append_assoc, List.singleton_append]
      · rw [hnext, Prod.mk.injEq, Except.ok.injEq] at h
        obtain ⟨rfl, rfl⟩ := h
        exact ⟨hr.inv, hr.end_le, by simpa using hr.yielded_append⟩
      · rw [hnext] at h
        cases h

/-- What a `Next` call at `t` returns, against the events the reader must see: the next of
them, the end once all have been returned, or the invalidation error once evictions have
overtaken the interval. -/
def NextOutcome (target : List (WatchCacheEvent α)) (t : Reading α) : Prop :=
  t.yielded <+: target ∧
    match (t.interval.next t.tracked.cache).1 with
    | .ok (some e) => t.yielded ++ [e] <+: target
    | .ok none => t.yielded = target
    | .error msg => msg = WatchCacheInterval.invalidatedMessage t.interval.startIndex ∧
        t.interval.startIndex < t.tracked.cache.startIndex
attribute [grind] NextOutcome

theorem ReadInv.nextOutcome {t : Reading α} (hr : ReadInv L target t) : NextOutcome target t := by
  refine ⟨⟨_, hr.yielded_append⟩, ?_⟩
  rcases WatchCacheInterval.next_cases hr.inv.window hr.end_le with
    ⟨ev, wci', hnext, hpending, -⟩ | ⟨hnext, hpending⟩ | ⟨hnext, hevicted⟩
  · rw [hnext]
    refine ⟨wci'.pending t.tracked.log, ?_⟩
    rw [← hr.yielded_append, hpending]
    simp
  · rw [hnext]
    simpa [hpending] using hr.yielded_append
  · rw [hnext]
    exact ⟨rfl, hevicted⟩

end

/-! ## Resumption after a `Replace` -/

/-- After a `Replace` at `L > 0` on a cache within its bounds, and any events with growing
versions above `L`: the buffer holds the most recent events in order, within its bounds; a
resource version `r > 0` is refused as too old exactly under `Tracked.TooOld`; otherwise
the interval returned yields, through every interleaving of further events (with resizes
and evictions) and `Next` calls, exactly the logged events newer than `r`, in order, or
fails with the invalidation error once evictions have overtaken it. -/
theorem watchCache_resumption {w₀ : WatchCache α} (hw₀ : w₀.Bounds) {L : Nat} (hL : 0 < L)
    {s : Tracked α} (hs : Reachable (· = Tracked.afterReplace w₀ L) Step s) :
    s.cache.Window s.log ∧
      ∀ r storeList, 0 < r →
        (s.TooOld L r →
            ∃ o, s.cache.getAllEventsSinceLocked r storeList = .error (.resourceExpired r o)) ∧
          (¬s.TooOld L r → ∃ wci, s.cache.getAllEventsSinceLocked r storeList = .ok wci ∧
            ∀ labels t, Run ReadStep ⟨s, wci, []⟩ labels t →
              NextOutcome (s.log.filter fun e => r < e.resourceVersion) t) := by
  have hinv := Tracked.Inv.reachable hw₀ hs
  refine ⟨hinv.window, fun r storeList hr =>
    ⟨hinv.getAllEventsSinceLocked_of_tooOld hL hr storeList, fun hnew => ?_⟩⟩
  obtain ⟨wci, hget, hbuf, hend, hdrop⟩ := hinv.getAllEventsSinceLocked_of_not_tooOld hL hr storeList hnew
  refine ⟨wci, hget, fun labels t hrun => ?_⟩
  -- the reader starts with everything the interval covers still to be returned
  have hstart : ReadInv L (s.log.filter fun e => r < e.resourceVersion) ⟨s, wci, []⟩ := by
    refine ⟨hinv, Nat.le_of_eq hend, ?_⟩
    show [] ++ (wci.buffer ++ (s.log.drop wci.startIndex).take (wci.endIndex - wci.startIndex)) = _
    rw [hbuf, List.nil_append, List.nil_append, ← hdrop, hend,
      List.take_of_length_le (by rw [List.length_drop])]
  exact (hrun.preserves (fun _ _ _ _ hr hstep => hr.step hstep) hstart).nextOutcome

/-- One event after a `Replace` at `5` on a new cache. -/
theorem watchCache_resumption_oneEvent :
    ∃ s : Tracked Unit, Reachable (· = Tracked.afterReplace newWatchCache 5) Step s ∧
      s.log = [⟨.added, (), "a", 6, 0⟩] ∧
      (s.cache.Window s.log ∧
        ∀ r storeList, 0 < r →
          (s.TooOld 5 r →
              ∃ o, s.cache.getAllEventsSinceLocked r storeList = .error (.resourceExpired r o)) ∧
            (¬s.TooOld 5 r → ∃ wci, s.cache.getAllEventsSinceLocked r storeList = .ok wci ∧
              ∀ labels t, Run ReadStep ⟨s, wci, []⟩ labels t →
                NextOutcome (s.log.filter fun e => r < e.resourceVersion) t)) := by
  have hreach : Reachable (· = Tracked.afterReplace newWatchCache 5) Step
      (⟨(newWatchCache.replace 5).processEvent ⟨.added, (), "a", 6, 0⟩, [] ++ [⟨.added, (), "a", 6, 0⟩]⟩ :
        Tracked Unit) :=
    Reachable.step (Reachable.init rfl) (Step.processEvent _ _ (by decide))
  exact ⟨_, hreach, rfl, watchCache_resumption WatchCache.newWatchCache_bounds (by decide) hreach⟩

end Cacher
end Kubernetes
