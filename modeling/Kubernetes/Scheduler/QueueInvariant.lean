import Mathlib
import Kubernetes.Scheduler.Queue

/-!
# What every run of the priority queue keeps

The calls of the queue change it only through a few updates: a new `QueuedPodInfo`, a write
through a pointer, `Add`, `Delete` and `Pop` of one of the two heaps, `addOrUpdate` and `delete` of
`unschedulablePods`, and the clock and counters.  A property kept by each of these updates
(`Closed`) is kept by every call (`Closed.exec`), and so holds in every queue reachable from
`NewPriorityQueue` that has it (`Closed.reachable`).  This is one induction for all the
invariants below.

The writes through a pointer come in two kinds.  `addToActiveQ` and the scheduler write `Gated`
and `UnschedulablePlugins`, into an object that may be in any of the three queues at the time.
`AddUnschedulableIfNotPresent` writes `Timestamp` and `Pop` writes `Attempts`, each into an object
that `activeQ` does not hold: the first has just checked that no object of the pod's key is there,
and the second has just taken the object out.  None of the writes changes the object's pod.

`Wellformed`: every address a queue holds is one the queue gave out, both heaps are indexed,
each address is filed under the key of the object it points to, and `unschedulablePods` is a map
keyed by the full names of its pods (`reachable_wellformed`).  When the profile's `less` compares
pods by a key `prio` that neither `Gated` nor `UnschedulablePlugins` enters, `activeQ` is also
heap-ordered by `prio` (`reachable_activeQ_valid`), and `Pop` hands out the address of a pod whose
key no pod of `activeQ` has below it, takes out that address only, and writes that object only
(`reachable_pop_least`).

`podBackoffQ` keeps no such order.  An object can be in `activeQ` and `podBackoffQ` at once (a pod
gated by `activate` in `podBackoffQ`, then let through by a move request), and `Pop` then counts an
attempt into an object `podBackoffQ` still holds, which moves its backoff time without sifting it;
the same object, flushed from `podBackoffQ` while a plugin rejects it, is gated in `activeQ`.
-/

namespace Kubernetes
namespace Scheduler

open Transition

/-! ## The map of unschedulable pods -/

namespace UnschedulablePods

/-- Every entry, name and address, has the property `Q`, and no name has two entries. -/
def Keyed (u : UnschedulablePods) (Q : String → Nat → Prop) : Prop :=
  (∀ e ∈ u.podInfoMap, Q e.1 e.2) ∧ (u.podInfoMap.map Prod.fst).Nodup
attribute [grind] Keyed

variable {u : UnschedulablePods} {Q : String → Nat → Prop}

theorem Keyed.addOrUpdate (hu : u.Keyed Q) {pod : Pod} {pInfo : Nat}
    (hq : Q (getPodFullName pod) pInfo) : (u.addOrUpdate pod pInfo).Keyed Q := by
  unfold UnschedulablePods.addOrUpdate
  dsimp only
  split_ifs with hany
  · -- the entry of the name is written in place: the names stay
    have hnames : (u.podInfoMap.map fun e =>
          if e.1 == getPodFullName pod then (getPodFullName pod, pInfo) else e).map Prod.fst =
        u.podInfoMap.map Prod.fst := by
      rw [List.map_map]
      apply List.map_congr_left
      intro e _
      by_cases he : e.1 = getPodFullName pod <;> simp [he]
    refine ⟨fun e he => ?_, by rw [hnames]; exact hu.2⟩
    obtain ⟨e', he', rfl⟩ := List.mem_map.mp he
    by_cases hk : e'.1 = getPodFullName pod
    · simpa [hk] using hq
    · simp only [beq_iff_eq, hk, if_false]
      exact hu.1 e' he'
  · -- a new name goes last
    have hout : getPodFullName pod ∉ u.podInfoMap.map Prod.fst := fun hmem => by
      obtain ⟨e, he, hk⟩ := List.mem_map.mp hmem
      exact hany (List.any_eq_true.mpr ⟨e, he, by simp [hk]⟩)
    refine ⟨fun e he => ?_, ?_⟩
    · rcases List.mem_append.mp he with he | he
      · exact hu.1 e he
      · rw [List.mem_singleton.mp he]
        exact hq
    · rw [List.map_append, List.nodup_append]
      refine ⟨hu.2, List.nodup_singleton _, ?_⟩
      intro a ha b hb hab
      simp only [List.map_cons, List.map_nil, List.mem_singleton] at hb
      rw [hab, hb] at ha
      exact hout ha

theorem Keyed.delete (hu : u.Keyed Q) (pod : Pod) : (u.delete pod).Keyed Q :=
  ⟨fun e he => hu.1 e (List.mem_of_mem_filter he),
    hu.2.sublist ((List.filter_sublist).map Prod.fst)⟩

theorem Keyed.mono (hu : u.Keyed Q) {Q' : String → Nat → Prop}
    (himp : ∀ e ∈ u.podInfoMap, Q e.1 e.2 → Q' e.1 e.2) : u.Keyed Q' :=
  ⟨fun e he => himp e he (hu.1 e he), hu.2⟩

/-- The address `get` finds is that of an entry. -/
theorem mem_of_get {pod : Pod} {pInfo : Nat} (hget : u.get pod = some pInfo) :
    (getPodFullName pod, pInfo) ∈ u.podInfoMap := by
  unfold get at hget
  generalize u.podInfoMap = l at hget ⊢
  induction l with
  | nil => simp [List.lookup] at hget
  | cons e l ih =>
    rw [lookup_cons_eq] at hget
    split_ifs at hget with hk
    · cases hget
      rw [hk]
      exact List.mem_cons_self
    · exact List.mem_cons_of_mem _ (ih hget)

end UnschedulablePods

/-! ## The queue is well formed -/

namespace PriorityQueue

variable (p : PriorityQueue)

/-- The address `ptr` is one the queue gave out, and the object there has the heap key `key`. -/
def Stored (key : String) (ptr : Nat) : Prop :=
  ptr < p.numPodInfos ∧ p.keyOf ptr = key
attribute [grind] Stored

/-- The address `ptr` is one the queue gave out, and the object there has the full name `name`. -/
def StoredByName (name : String) (ptr : Nat) : Prop :=
  ptr < p.numPodInfos ∧ getPodFullName (p.podInfo ptr).pod = name
attribute [grind] StoredByName

/-- Both heaps indexed and `unschedulablePods` a map, each holding addresses the queue gave out,
filed under the key of the object they point to. -/
structure Wellformed : Prop where
  activeQ_indexed : p.activeQ.Indexed
  podBackoffQ_indexed : p.podBackoffQ.Indexed
  activeQ_holds : p.activeQ.Holds p.Stored
  podBackoffQ_holds : p.podBackoffQ.Holds p.Stored
  unschedulable : p.unschedulablePods.Keyed p.StoredByName

/-- `q` has the addresses of `p`, each pointing to an object of the same pod. -/
def PodsKept (q : PriorityQueue) : Prop :=
  p.numPodInfos ≤ q.numPodInfos ∧ ∀ ptr < p.numPodInfos, (q.podInfo ptr).pod = (p.podInfo ptr).pod
attribute [grind] PodsKept

variable {p}

theorem PodsKept.stored {q : PriorityQueue} (hk : p.PodsKept q) {key : String} {ptr : Nat}
    (hs : p.Stored key ptr) : q.Stored key ptr :=
  ⟨lt_of_lt_of_le hs.1 hk.1, by rw [← hs.2]; simp only [keyOf, podInfoKeyFunc, hk.2 ptr hs.1]⟩

theorem PodsKept.storedByName {q : PriorityQueue} (hk : p.PodsKept q) {name : String} {ptr : Nat}
    (hs : p.StoredByName name ptr) : q.StoredByName name ptr :=
  ⟨lt_of_lt_of_le hs.1 hk.1, by rw [← hs.2, hk.2 ptr hs.1]⟩

/-- A queue with the same sub-queues and a memory that keeps the pods is well formed. -/
theorem Wellformed.of_podsKept (hw : p.Wellformed) {q : PriorityQueue} (hk : p.PodsKept q)
    (ha : q.activeQ = p.activeQ) (hb : q.podBackoffQ = p.podBackoffQ)
    (hu : q.unschedulablePods = p.unschedulablePods) : q.Wellformed where
  activeQ_indexed := ha ▸ hw.activeQ_indexed
  podBackoffQ_indexed := hb ▸ hw.podBackoffQ_indexed
  activeQ_holds := ha ▸ hw.activeQ_holds.mono fun _ _ _ hs => hk.stored hs
  podBackoffQ_holds := hb ▸ hw.podBackoffQ_holds.mono fun _ _ _ hs => hk.stored hs
  unschedulable := hu ▸ hw.unschedulable.mono fun _ _ hs => hk.storedByName hs

theorem podsKept_modifyPodInfo {ptr : Nat} {f : QueuedPodInfo → QueuedPodInfo}
    (hf : ∀ x, (f x).pod = x.pod) : p.PodsKept (p.modifyPodInfo ptr f) := by
  refine ⟨le_rfl, fun r _ => ?_⟩
  rw [podInfo_modifyPodInfo]
  split_ifs with hr
  · rw [hf, hr]
  · rfl

theorem podsKept_newPodInfo (pInfo : QueuedPodInfo) : p.PodsKept (p.newPodInfo pInfo).2 := by
  refine ⟨Nat.le_succ _, fun r hr => ?_⟩
  rw [podInfo_newPodInfo, if_neg (Nat.ne_of_lt hr)]

theorem wellformed_newPriorityQueue (now : Int) : (newPriorityQueue now).Wellformed where
  activeQ_indexed := Data.indexed_empty
  podBackoffQ_indexed := Data.indexed_empty
  activeQ_holds := Data.holds_empty _
  podBackoffQ_holds := Data.holds_empty _
  unschedulable := ⟨fun _ he => absurd he List.not_mem_nil, List.nodup_nil⟩

/-- An address `activeQ` holds is filed under the key of its object. -/
theorem Wellformed.activeQ_key (hw : p.Wellformed) {key : String} {ptr : Nat}
    (hx : p.activeQ.objAt key = some ptr) : p.keyOf ptr = key :=
  (hw.activeQ_holds key ptr hx).2

/-- When no object of an address's key is in `activeQ`, no key of `activeQ` holds the address. -/
theorem Wellformed.not_held_of_objAt_keyOf (hw : p.Wellformed) {ptr : Nat}
    (hnone : p.activeQ.objAt (p.keyOf ptr) = none) : ∀ key, p.activeQ.objAt key ≠ some ptr := by
  intro key hkey
  rw [hw.activeQ_key hkey, hkey] at hnone
  cases hnone

/-- The address `Pop` takes out of `activeQ` is held by no key that stays. -/
theorem Wellformed.not_held_popObj (hw : p.Wellformed) (less : Nat → Nat → Bool) {ptr : Nat}
    (hpop : (p.activeQ.popObj less).2 = .ok ptr) :
    ∀ key, (p.activeQ.popObj less).1.objAt key ≠ some ptr := by
  intro key hkey
  have hpos : 0 < p.activeQ.queue.length := by
    rcases Nat.eq_zero_or_pos p.activeQ.queue.length with h0 | h0
    · rw [hw.activeQ_indexed.popObj_of_queue_eq_nil less (List.eq_nil_of_length_eq_zero h0)] at hpop
      cases hpop
    · exact h0
  obtain ⟨k, x, hx, hk, hobj⟩ := hw.activeQ_indexed.popObj_eq less hpos
  -- the address taken out is the one `Pop` hands back, filed under `k` and nowhere else
  have hxp : x = ptr := by
    rw [hx] at hpop
    cases hpop
    rfl
  subst hxp
  rw [hobj] at hkey
  by_cases hkk : key = k
  · subst hkk
    simp at hkey
  · rw [Function.update_of_ne hkk] at hkey
    exact hkk ((hw.activeQ_key hkey).symm.trans (hw.activeQ_key hk))

/-- An address `unschedulablePods` finds is one the queue gave out. -/
theorem Wellformed.lt_of_get (hw : p.Wellformed) {pod : Pod} {ptr : Nat}
    (hget : p.unschedulablePods.get pod = some ptr) : ptr < p.numPodInfos :=
  (hw.unschedulable.1 _ (UnschedulablePods.mem_of_get hget)).1

/-- An address a heap holds is one the queue gave out. -/
theorem Wellformed.lt_of_podBackoffQ (hw : p.Wellformed) {key : String} {ptr : Nat}
    (hx : p.podBackoffQ.objAt key = some ptr) : ptr < p.numPodInfos :=
  (hw.podBackoffQ_holds key ptr hx).1

/-! ## Properties every call keeps -/

variable (cfg : Config) (verdict : String → Pod → Bool)

/-- A property of the queue, at least as strong as being well formed, kept by each update the
calls are made of. -/
structure Closed (J : PriorityQueue → Prop) : Prop where
  wellformed : ∀ p, J p → p.Wellformed
  newPodInfo : ∀ p x, J p → J (p.newPodInfo x).2
  /-- `Gated` and `UnschedulablePlugins`, into any object. -/
  writeFlags : ∀ p ptr (l : QueuedPodInfo → List String) (g : QueuedPodInfo → Bool), J p →
    J (p.modifyPodInfo ptr fun x => { x with unschedulablePlugins := l x, gated := g x })
  /-- Any write that keeps the pod, into an object `activeQ` does not hold. -/
  writeOutside : ∀ p ptr (f : QueuedPodInfo → QueuedPodInfo), J p → (∀ x, (f x).pod = x.pod) →
    (∀ key, p.activeQ.objAt key ≠ some ptr) → J (p.modifyPodInfo ptr f)
  addActive : ∀ p x, J p → x < p.numPodInfos →
    J { p with activeQ := p.activeQ.add (p.activeLess cfg) p.keyOf x }
  deleteActive : ∀ p key h', J p → p.activeQ.delete (p.activeLess cfg) key = .ok h' →
    J { p with activeQ := h' }
  popActive : ∀ p, J p → J { p with activeQ := (p.activeQ.popObj (p.activeLess cfg)).1 }
  addBackoff : ∀ p x, J p → x < p.numPodInfos →
    J { p with podBackoffQ := p.podBackoffQ.add (p.backoffLess cfg) p.keyOf x }
  deleteBackoff : ∀ p key h', J p → p.podBackoffQ.delete (p.backoffLess cfg) key = .ok h' →
    J { p with podBackoffQ := h' }
  popBackoff : ∀ p, J p →
    J { p with podBackoffQ := (p.podBackoffQ.popObj (p.backoffLess cfg)).1 }
  addOrUpdate : ∀ p x, J p → x < p.numPodInfos →
    J { p with unschedulablePods := p.unschedulablePods.addOrUpdate (p.podInfo x).pod x }
  deleteUnschedulable : ∀ p pod, J p →
    J { p with unschedulablePods := p.unschedulablePods.delete pod }
  /-- The clock, the counters and `closed` do not matter. -/
  frame : ∀ p q, J p → q.podInfo = p.podInfo → q.numPodInfos = p.numPodInfos →
    q.activeQ = p.activeQ → q.podBackoffQ = p.podBackoffQ →
    q.unschedulablePods = p.unschedulablePods → J q

@[simp] theorem numPodInfos_addToActiveQ (pInfo : Nat) :
    (p.addToActiveQ cfg verdict pInfo).1.numPodInfos = p.numPodInfos := by
  unfold addToActiveQ
  dsimp only
  split_ifs <;> rfl

@[simp] theorem numPodInfos_deleteUnschedulable (pod : Pod) :
    (p.deleteUnschedulable pod).numPodInfos = p.numPodInfos := rfl

@[simp] theorem numPodInfos_deleteBackoff (key : String) :
    (p.deleteBackoff cfg key).numPodInfos = p.numPodInfos := by
  unfold deleteBackoff
  split <;> rfl

namespace Closed

variable {cfg} {J : PriorityQueue → Prop} (hc : Closed cfg J) (verdict : String → Pod → Bool)
include hc

theorem deleteUnschedulable' {p : PriorityQueue} (hp : J p) (pod : Pod) :
    J (p.deleteUnschedulable pod) :=
  hc.deleteUnschedulable p pod hp

theorem deleteBackoff' {p : PriorityQueue} (hp : J p) (key : String) :
    J (p.deleteBackoff cfg key) := by
  unfold PriorityQueue.deleteBackoff
  split
  · next q hdel => exact hc.deleteBackoff p key q hp hdel
  · exact hp

theorem addToActiveQ {p : PriorityQueue} (hp : J p) {pInfo : Nat} (hx : pInfo < p.numPodInfos) :
    J (p.addToActiveQ cfg verdict pInfo).1 := by
  -- the plugins' verdict is written through the pointer first
  have hw := hc.writeFlags p pInfo
    (fun _ => (cfg.runPreEnqueuePlugins verdict (p.podInfo pInfo)).1.unschedulablePlugins)
    (fun _ => !(cfg.runPreEnqueuePlugins verdict (p.podInfo pInfo)).2) hp
  unfold PriorityQueue.addToActiveQ
  dsimp only
  split_ifs
  · exact hc.addOrUpdate _ pInfo hw hx
  · exact hc.addActive _ pInfo hw hx

theorem add {p : PriorityQueue} (hp : J p) (pod : Pod) : J (p.add cfg verdict pod) := by
  have hn := hc.newPodInfo p ⟨pod, p.now, 0, p.now, [], false⟩ hp
  have hlt : p.numPodInfos < (p.newPodInfo ⟨pod, p.now, 0, p.now, [], false⟩).2.numPodInfos := by simp
  have hr := hc.addToActiveQ verdict hn hlt
  unfold PriorityQueue.add
  dsimp only
  split_ifs
  · exact hr
  · exact hc.deleteBackoff' (hc.deleteUnschedulable' hr pod) _
  · exact hc.deleteBackoff' hr _

theorem activate {p : PriorityQueue} (hp : J p) (pod : Pod) : J (p.activate cfg verdict pod).1 := by
  have hw := hc.wellformed p hp
  -- the branch for an address found in `unschedulablePods` or in `podBackoffQ`
  have hfound : ∀ pInfo, pInfo < p.numPodInfos →
      J (if (!(p.addToActiveQ cfg verdict pInfo).2) = true
        then ((p.addToActiveQ cfg verdict pInfo).1, false)
        else ((((p.addToActiveQ cfg verdict pInfo).1.deleteUnschedulable
            ((p.addToActiveQ cfg verdict pInfo).1.podInfo pInfo).pod).deleteBackoff cfg
          ((p.addToActiveQ cfg verdict pInfo).1.keyOf pInfo)), true)).1 := by
    intro pInfo hx
    have hr := hc.addToActiveQ verdict hp hx
    split_ifs
    · exact hr
    · exact hc.deleteBackoff' (hc.deleteUnschedulable' hr _) _
  unfold PriorityQueue.activate
  dsimp only
  split_ifs
  · exact hp
  · cases hu : p.unschedulablePods.get pod with
    | some pInfo =>
      simp only
      exact hfound pInfo (hw.lt_of_get hu)
    | none =>
      simp only
      cases hb : p.podBackoffQ.objAt (metaNamespaceKeyFunc pod) with
      | none => exact hp
      | some pInfo => exact hfound pInfo (hw.lt_of_podBackoffQ hb)

theorem activateAll {p : PriorityQueue} (hp : J p) (pods : List Pod) :
    J (p.activateAll cfg verdict pods) := by
  unfold PriorityQueue.activateAll
  induction pods generalizing p with
  | nil => exact hp
  | cons pod pods ih => exact ih (hc.activate verdict hp pod)

theorem addUnschedulableIfNotPresent {p q : PriorityQueue} (hp : J p) {pInfo : Nat}
    (hx : pInfo < p.numPodInfos) {podSchedulingCycle : Int}
    (hq : p.addUnschedulableIfNotPresent cfg pInfo podSchedulingCycle = .ok q) : J q := by
  -- the new timestamp goes into an object `activeQ` does not hold, as the call has just checked
  have hts : ¬(p.activeQ.objAt (p.keyOf pInfo)).isSome = true →
      J (p.modifyPodInfo pInfo fun x => { x with timestamp := p.now }) := fun hact =>
    hc.writeOutside p pInfo _ hp (fun _ => rfl)
      ((hc.wellformed p hp).not_held_of_objAt_keyOf (Option.not_isSome_iff_eq_none.mp hact))
  unfold PriorityQueue.addUnschedulableIfNotPresent at hq
  dsimp only at hq
  split_ifs at hq with _ hact
  · cases hq
    exact hc.addBackoff _ pInfo (hts hact) hx
  · cases hq
    exact hc.addOrUpdate _ pInfo (hts hact) hx

theorem movePodsLoop (event : ClusterEvent) (pods : List Nat) :
    ∀ {p : PriorityQueue}, J p → (∀ ptr ∈ pods, ptr < p.numPodInfos) →
      J (PriorityQueue.movePodsLoop cfg verdict event pods p) := by
  induction pods with
  | nil => exact fun hp _ => hp
  | cons pInfo rest ih =>
    intro p hp hlt
    have hx : pInfo < p.numPodInfos := hlt pInfo List.mem_cons_self
    have hrest : ∀ ptr ∈ rest, ptr < p.numPodInfos := fun ptr hptr => hlt ptr (List.mem_cons_of_mem _ hptr)
    unfold PriorityQueue.movePodsLoop
    dsimp only
    split_ifs
    · exact ih hp hrest
    · -- still backing off: to `podBackoffQ`
      exact ih (hc.deleteUnschedulable' (hc.addBackoff p pInfo hp hx) _) hrest
    · exact ih (hc.deleteUnschedulable' (hc.addToActiveQ verdict hp hx) _) (by simpa using hrest)
    · exact ih (hc.addToActiveQ verdict hp hx) (by simpa using hrest)

/-- Every address of the map is one the queue gave out. -/
theorem lt_of_mem_unschedulable {p : PriorityQueue} (hp : J p) :
    ∀ ptr ∈ p.unschedulablePods.podInfoMap.map (·.2), ptr < p.numPodInfos := by
  intro ptr hptr
  obtain ⟨e, he, rfl⟩ := List.mem_map.mp hptr
  exact ((hc.wellformed p hp).unschedulable.1 e he).1

theorem movePodsToActiveOrBackoffQueue {p : PriorityQueue} (hp : J p) {pods : List Nat}
    (hlt : ∀ ptr ∈ pods, ptr < p.numPodInfos) (event : ClusterEvent) :
    J (p.movePodsToActiveOrBackoffQueue cfg verdict pods event) :=
  hc.frame _ _ (hc.movePodsLoop verdict event pods hp hlt) rfl rfl rfl rfl rfl

theorem flushBackoffQLoop (fuel : Nat) :
    ∀ {p : PriorityQueue}, J p → J (PriorityQueue.flushBackoffQLoop cfg verdict fuel p) := by
  induction fuel with
  | zero => exact fun hp => hp
  | succ fuel ih =>
    intro p hp
    unfold PriorityQueue.flushBackoffQLoop
    dsimp only
    split
    · exact hp
    · next pInfo hpeek =>
      -- the root is an address the queue gave out
      obtain ⟨key, hkey⟩ := Data.objAt_of_peek hpeek
      have hx := (hc.wellformed p hp).lt_of_podBackoffQ hkey
      split_ifs
      · exact hp
      · split
        · exact hc.popBackoff p hp
        · exact ih (hc.addToActiveQ verdict (hc.popBackoff p hp) hx)

theorem pop {p q : PriorityQueue} (hp : J p) {r : Except String Nat}
    (hpop : p.pop cfg = some (q, r)) : J q := by
  unfold PriorityQueue.pop at hpop
  dsimp only at hpop
  split_ifs at hpop
  · cases hpop
    exact hp
  · split at hpop
    · cases hpop
      exact hc.popActive p hp
    · next ptr hok =>
      cases hpop
      -- the attempt is counted into the object just taken out of `activeQ`
      let popped : PriorityQueue := { p with
        activeQ := (p.activeQ.popObj (p.activeLess cfg)).1
        schedulingCycle := p.schedulingCycle + 1 }
      have hcyc : J popped := hc.frame _ _ (hc.popActive p hp) rfl rfl rfl rfl rfl
      exact hc.writeOutside popped ptr _ hcyc (fun _ => rfl)
        ((hc.wellformed p hp).not_held_popObj _ hok)

theorem delete {p : PriorityQueue} (hp : J p) (pod : Pod) : J (p.delete cfg pod) := by
  unfold PriorityQueue.delete
  dsimp only
  split
  · next q hdel => exact hc.deleteActive p _ q hp hdel
  · have hb := hc.deleteBackoff' hp (metaNamespaceKeyFunc pod)
    split_ifs
    · exact hc.deleteUnschedulable' hb pod
    · exact hb

/-- Every call the callers may make keeps a closed property. -/
theorem exec {p q : PriorityQueue} (hp : J p) {op : Op} (hallowed : p.Allowed op = true)
    (hq : p.exec cfg verdict op = some q) : J q := by
  cases op with
  | add pod =>
    cases hq
    exact hc.add verdict hp pod
  | activate pods =>
    cases hq
    exact hc.activateAll verdict hp pods
  | addUnschedulableIfNotPresent pInfo podSchedulingCycle =>
    simp only [PriorityQueue.exec] at hq
    split at hq
    · next q' hok =>
      cases hq
      exact hc.addUnschedulableIfNotPresent hp (of_decide_eq_true hallowed) hok
    · cases hq
      exact hp
  | setUnschedulablePlugins pInfo plugins =>
    cases hq
    exact hc.writeFlags p pInfo (fun _ => plugins) (fun x => x.gated) hp
  | pop =>
    simp only [PriorityQueue.exec, Option.map_eq_some_iff] at hq
    obtain ⟨⟨q', r⟩, hpop, rfl⟩ := hq
    exact hc.pop hp hpop
  | delete pod =>
    cases hq
    exact hc.delete hp pod
  | moveAllToActiveOrBackoffQueue event preCheck =>
    cases hq
    exact hc.movePodsToActiveOrBackoffQueue verdict hp
      (fun ptr hptr => hc.lt_of_mem_unschedulable hp ptr (List.mem_of_mem_filter hptr)) event
  | flushBackoffQCompleted =>
    cases hq
    exact hc.flushBackoffQLoop verdict _ hp
  | flushUnschedulablePodsLeftover =>
    cases hq
    unfold PriorityQueue.flushUnschedulablePodsLeftover
    dsimp only
    split_ifs
    · exact hc.movePodsToActiveOrBackoffQueue verdict hp
        (fun ptr hptr => hc.lt_of_mem_unschedulable hp ptr (List.mem_of_mem_filter hptr)) _
    · exact hp
  | close =>
    cases hq
    exact hc.frame _ _ hp rfl rfl rfl rfl rfl
  | tick now =>
    cases hq
    exact hc.frame _ _ hp rfl rfl rfl rfl rfl

omit hc in
/-- A closed property of the new queue holds in every reachable queue. -/
theorem reachable {J : PriorityQueue → Prop} (hc : Closed cfg J) {now : Int}
    (hinit : J (newPriorityQueue now)) {p : PriorityQueue} (hp : Reachable cfg now p) : J p := by
  refine Inductive.reachable (P := J)
    ⟨fun s hs => ?_, fun s a t hs hstep => hc.exec a.2 hs hstep.1 hstep.2⟩ hp
  rw [hs]
  exact hinit

end Closed

theorem closed_wellformed : Closed cfg Wellformed where
  wellformed _ hp := hp
  newPodInfo p _ hp := hp.of_podsKept (podsKept_newPodInfo _) rfl rfl rfl
  writeFlags p _ _ _ hp := hp.of_podsKept (podsKept_modifyPodInfo fun _ => rfl) rfl rfl rfl
  writeOutside p _ _ hp hf _ := hp.of_podsKept (podsKept_modifyPodInfo hf) rfl rfl rfl
  addActive p x hp hx :=
    { hp with
      activeQ_indexed := hp.activeQ_indexed.add _ _ _
      activeQ_holds := hp.activeQ_holds.add _ _ ⟨hx, rfl⟩ }
  deleteActive p _ _ hp hdel :=
    { hp with
      activeQ_indexed := hp.activeQ_indexed.delete _ hdel
      activeQ_holds := hp.activeQ_holds.delete _ hp.activeQ_indexed hdel }
  popActive p hp :=
    { hp with
      activeQ_indexed := hp.activeQ_indexed.popObj _
      activeQ_holds := hp.activeQ_holds.popObj _ hp.activeQ_indexed }
  addBackoff p x hp hx :=
    { hp with
      podBackoffQ_indexed := hp.podBackoffQ_indexed.add _ _ _
      podBackoffQ_holds := hp.podBackoffQ_holds.add _ _ ⟨hx, rfl⟩ }
  deleteBackoff p _ _ hp hdel :=
    { hp with
      podBackoffQ_indexed := hp.podBackoffQ_indexed.delete _ hdel
      podBackoffQ_holds := hp.podBackoffQ_holds.delete _ hp.podBackoffQ_indexed hdel }
  popBackoff p hp :=
    { hp with
      podBackoffQ_indexed := hp.podBackoffQ_indexed.popObj _
      podBackoffQ_holds := hp.podBackoffQ_holds.popObj _ hp.podBackoffQ_indexed }
  addOrUpdate p x hp hx := { hp with unschedulable := hp.unschedulable.addOrUpdate ⟨hx, rfl⟩ }
  deleteUnschedulable p pod hp := { hp with unschedulable := hp.unschedulable.delete pod }
  frame p q hp hi hn ha hb hu := by
    have hk : p.PodsKept q := ⟨hn.ge, fun ptr _ => by rw [hi]⟩
    exact hp.of_podsKept hk ha hb hu

/-! ## `activeQ` is ordered -/

section Ordered

variable {κ : Type} [LinearOrder κ] (prio : QueuedPodInfo → κ)

/-- `activeQ` is ordered by `prio` of the objects its addresses point to now. -/
def ActiveOrdered (p : PriorityQueue) : Prop :=
  p.Wellformed ∧ p.activeQ.Valid fun ptr => prio (p.podInfo ptr)
attribute [grind] ActiveOrdered

variable {prio} {cfg}

/-- A write into objects `activeQ` does not hold, or that keeps their `prio`, keeps the order. -/
theorem activeOrdered_of_podInfo {p q : PriorityQueue} (hp : ActiveOrdered prio p)
    (hw : q.Wellformed) (ha : q.activeQ = p.activeQ)
    (hprio : ∀ key ptr, p.activeQ.objAt key = some ptr → prio (q.podInfo ptr) = prio (p.podInfo ptr)) :
    ActiveOrdered prio q :=
  ⟨hw, ha ▸ hp.2.congr hprio⟩

theorem closed_activeOrdered (hless : ∀ a b, cfg.lessFn a b = decide (prio a < prio b))
    (hflags : ∀ x l g, prio { x with unschedulablePlugins := l, gated := g } = prio x) :
    Closed cfg (ActiveOrdered prio) where
  wellformed _ hp := hp.1
  newPodInfo p x hp := activeOrdered_of_podInfo hp ((closed_wellformed cfg).newPodInfo p x hp.1) rfl
    fun _ ptr hptr => by
      -- every address of `activeQ` was given out before
      have hlt := (hp.1.activeQ_holds _ ptr hptr).1
      rw [podInfo_newPodInfo, if_neg (Nat.ne_of_lt hlt)]
  writeFlags p ptr l g hp := activeOrdered_of_podInfo hp
    ((closed_wellformed cfg).writeFlags p ptr l g hp.1) rfl fun _ r _ => by
      rw [podInfo_modifyPodInfo]
      split_ifs with hr
      · rw [hflags, hr]
      · rfl
  writeOutside p ptr f hp hf hout := activeOrdered_of_podInfo hp
    ((closed_wellformed cfg).writeOutside p ptr f hp.1 hf hout) rfl fun key r hr => by
      rw [podInfo_modifyPodInfo, if_neg (fun (he : r = ptr) => hout key (he ▸ hr))]
  addActive p x hp hx := ⟨(closed_wellformed cfg).addActive p x hp.1 hx,
    hp.2.add (fun a b => hless (p.podInfo a) (p.podInfo b)) _ _⟩
  deleteActive p key h' hp hdel := ⟨(closed_wellformed cfg).deleteActive p key h' hp.1 hdel,
    hp.2.delete (fun a b => hless (p.podInfo a) (p.podInfo b)) hdel⟩
  popActive p hp := ⟨(closed_wellformed cfg).popActive p hp.1,
    hp.2.popObj (fun a b => hless (p.podInfo a) (p.podInfo b))⟩
  addBackoff p x hp hx := ⟨(closed_wellformed cfg).addBackoff p x hp.1 hx, hp.2⟩
  deleteBackoff p key h' hp hdel := ⟨(closed_wellformed cfg).deleteBackoff p key h' hp.1 hdel, hp.2⟩
  popBackoff p hp := ⟨(closed_wellformed cfg).popBackoff p hp.1, hp.2⟩
  addOrUpdate p x hp hx := ⟨(closed_wellformed cfg).addOrUpdate p x hp.1 hx, hp.2⟩
  deleteUnschedulable p pod hp := ⟨(closed_wellformed cfg).deleteUnschedulable p pod hp.1, hp.2⟩
  frame p q hp hi hn ha hb hu := activeOrdered_of_podInfo hp
    ((closed_wellformed cfg).frame p q hp.1 hi hn ha hb hu) ha fun _ _ _ => by rw [hi]

end Ordered

end PriorityQueue

variable {cfg : Config} {now : Int} {p : PriorityQueue}

/-- A new queue takes any first `Add`. -/
theorem reachable_add_newPriorityQueue (verdict : String → Pod → Bool) (pod : Pod) :
    Reachable cfg now ((newPriorityQueue now).add cfg verdict pod) :=
  .step (.init rfl) (a := (.add pod, verdict)) ⟨rfl, rfl⟩

/-- A profile that orders `activeQ` by timestamp, with backoffs from 1 to 10 and no PreEnqueue
plugin: the configuration the examples below run in. -/
def timestampConfig : Config :=
  ⟨fun a b => decide (a.timestamp < b.timestamp), 1, 10, 60, [], fun _ => []⟩
attribute [grind] timestampConfig

/-- Every queue reachable from `NewPriorityQueue` is well formed: every address a queue holds is
one the queue gave out, both heaps are indexed, each address is filed under the key of its
object, and `unschedulablePods` is keyed by full names. -/
theorem reachable_wellformed (hp : Reachable cfg now p) : p.Wellformed :=
  (PriorityQueue.closed_wellformed cfg).reachable (PriorityQueue.wellformed_newPriorityQueue now) hp

/-- The queue after a first `Add`. -/
theorem reachable_wellformed_add : ∃ p, Reachable timestampConfig 0 p ∧ p.Wellformed :=
  ⟨_, reachable_add_newPriorityQueue (fun _ _ => true) ⟨"default", "web", "default-scheduler"⟩,
    reachable_wellformed (reachable_add_newPriorityQueue _ _)⟩

variable {κ : Type} [LinearOrder κ] (prio : QueuedPodInfo → κ)

/-- When the profile's `less` compares pods by a key `prio` that neither `Gated` nor
`UnschedulablePlugins` enters, in every reachable queue `activeQ` is an indexed heap ordered by
`prio` of the objects its addresses point to. -/
theorem reachable_activeQ_valid (hless : ∀ a b, cfg.lessFn a b = decide (prio a < prio b))
    (hflags : ∀ x l g, prio { x with unschedulablePlugins := l, gated := g } = prio x)
    (hp : Reachable cfg now p) : p.activeQ.Valid fun ptr => prio (p.podInfo ptr) :=
  ((PriorityQueue.closed_activeOrdered hless hflags).reachable
    ⟨PriorityQueue.wellformed_newPriorityQueue now, Data.valid_empty⟩ hp).2

/-- The queue after a first `Add`, whose profile orders pods by their timestamp. -/
theorem reachable_activeQ_valid_add :
    (∀ a b, timestampConfig.lessFn a b = decide (a.timestamp < b.timestamp)) ∧
      (∀ (x : QueuedPodInfo) l g, { x with unschedulablePlugins := l, gated := g }.timestamp = x.timestamp) ∧
      ∃ p, Reachable timestampConfig 0 p ∧ p.activeQ.Valid fun ptr => (p.podInfo ptr).timestamp :=
  ⟨fun _ _ => rfl, fun _ _ _ => rfl, _,
    reachable_add_newPriorityQueue (fun _ _ => true) ⟨"default", "web", "default-scheduler"⟩,
    reachable_activeQ_valid QueuedPodInfo.timestamp (fun _ _ => rfl) (fun _ _ _ => rfl)
      (reachable_add_newPriorityQueue _ _)⟩

/-! ## `Pop` -/

namespace PriorityQueue

variable (cfg)

/-- A `Pop` that hands back an address took it out of a non-empty `activeQ`, counted one more
attempt into its object, and started a new scheduling cycle. -/
theorem pop_eq_ok {q : PriorityQueue} {ptr : Nat} (hpop : p.pop cfg = some (q, .ok ptr)) :
    0 < p.activeQ.queue.length ∧ (p.activeQ.popObj (p.activeLess cfg)).2 = .ok ptr ∧
      q = ({ p with activeQ := (p.activeQ.popObj (p.activeLess cfg)).1,
                    schedulingCycle := p.schedulingCycle + 1 }).modifyPodInfo ptr
            fun x => { x with attempts := x.attempts + 1 } := by
  unfold PriorityQueue.pop at hpop
  dsimp only at hpop
  split_ifs at hpop with h0
  · cases hpop
  · split at hpop
    · cases hpop
    · next x hx =>
      cases hpop
      exact ⟨Nat.pos_of_ne_zero h0, hx, rfl⟩

/-- `Pop` of a well formed queue with a pod in `activeQ` hands back an address. -/
theorem Wellformed.pop_ok (hw : p.Wellformed) (hpos : 0 < p.activeQ.queue.length) :
    ∃ q ptr, p.pop cfg = some (q, .ok ptr) := by
  obtain ⟨-, x, hpop, -, -⟩ := hw.activeQ_indexed.popObj_eq (p.activeLess cfg) hpos
  unfold PriorityQueue.pop
  dsimp only
  rw [if_neg (by unfold Data.len; omega), hpop]
  exact ⟨_, _, rfl⟩

end PriorityQueue

/-- In every reachable queue `Pop` fails only on an empty queue that is closed, saying so, and
then changes nothing: the heap's own error, an item missing from its data, never happens. -/
theorem reachable_pop_error (hp : Reachable cfg now p) {q : PriorityQueue} {e : String}
    (hpop : p.pop cfg = some (q, .error e)) :
    p.activeQ.queue = [] ∧ p.closed = true ∧ q = p ∧ e = "scheduling queue is closed" := by
  unfold PriorityQueue.pop at hpop
  dsimp only at hpop
  split_ifs at hpop with h0 hclosed
  · cases hpop
    exact ⟨List.eq_nil_of_length_eq_zero h0, hclosed, rfl, rfl⟩
  · split at hpop
    · next e' herr =>
      -- `Pop` of a non-empty indexed heap succeeds
      have hw := (PriorityQueue.closed_wellformed cfg).reachable
        (PriorityQueue.wellformed_newPriorityQueue now) hp
      obtain ⟨-, x, hpopObj, -, -⟩ :=
        hw.activeQ_indexed.popObj_eq (p.activeLess cfg) (Nat.pos_of_ne_zero h0)
      rw [hpopObj] at herr
      cases herr
    · cases hpop

/-- `Pop` of a new queue once it is closed. -/
theorem reachable_pop_error_closed :
    ∃ p, Reachable timestampConfig 0 p ∧ p.pop timestampConfig = some (p, .error "scheduling queue is closed") ∧
      p.activeQ.queue = [] ∧ p.closed = true :=
  have hr : Reachable timestampConfig 0 { newPriorityQueue 0 with closed := true } :=
    .step (.init rfl) (a := (.close, fun _ _ => true)) ⟨rfl, rfl⟩
  ⟨_, hr, rfl, (reachable_pop_error hr rfl).1, (reachable_pop_error hr rfl).2.1⟩

/-- In every reachable queue whose profile's `less` compares pods by a key `prio` that neither
`Gated` nor `UnschedulablePlugins` enters, a `Pop` that hands back an address took it from under
its own key in `activeQ`, and the object there has a `prio` no object of `activeQ` is below.  The
`Pop` takes out that key only, and writes one more attempt into that object only. -/
theorem reachable_pop_least (hless : ∀ a b, cfg.lessFn a b = decide (prio a < prio b))
    (hflags : ∀ x l g, prio { x with unschedulablePlugins := l, gated := g } = prio x)
    (hp : Reachable cfg now p) {q : PriorityQueue} {ptr : Nat}
    (hpop : p.pop cfg = some (q, .ok ptr)) :
    p.activeQ.objAt (p.keyOf ptr) = some ptr ∧
      q.activeQ.objAt = Function.update p.activeQ.objAt (p.keyOf ptr) none ∧
      q.podInfo = Function.update p.podInfo ptr
        { p.podInfo ptr with attempts := (p.podInfo ptr).attempts + 1 } ∧
      ∀ key y, p.activeQ.objAt key = some y → ¬ prio (p.podInfo y) < prio (p.podInfo ptr) := by
  obtain ⟨hw, hv⟩ := (PriorityQueue.closed_activeOrdered hless hflags).reachable
    ⟨PriorityQueue.wellformed_newPriorityQueue now, Data.valid_empty⟩ hp
  obtain ⟨hpos, hx, rfl⟩ := PriorityQueue.pop_eq_ok cfg hpop
  obtain ⟨key, x, hpop', hkey, hobj⟩ := hw.activeQ_indexed.popObj_eq (p.activeLess cfg) hpos
  -- the address `Pop` hands back is the one whose item it takes out
  have hxx : x = ptr := by
    rw [hpop'] at hx
    cases hx
    rfl
  subst hxx
  have hk : p.keyOf x = key := hw.activeQ_key hkey
  refine ⟨by rw [hk]; exact hkey, by rw [hk]; exact hobj, rfl, ?_⟩
  exact fun k y hy => hv.popObj_least (fun a b => hless (p.podInfo a) (p.podInfo b)) hx hy

/-- `Pop` after a first `Add`, in a profile that orders pods by their timestamp. -/
theorem reachable_pop_least_add :
    ∃ p q ptr, (∀ a b, timestampConfig.lessFn a b = decide (a.timestamp < b.timestamp)) ∧
      (∀ (x : QueuedPodInfo) l g, { x with unschedulablePlugins := l, gated := g }.timestamp = x.timestamp) ∧
      Reachable timestampConfig 0 p ∧ p.pop timestampConfig = some (q, .ok ptr) ∧
      p.activeQ.objAt (p.keyOf ptr) = some ptr ∧
      q.activeQ.objAt = Function.update p.activeQ.objAt (p.keyOf ptr) none ∧
      q.podInfo = Function.update p.podInfo ptr
        { p.podInfo ptr with attempts := (p.podInfo ptr).attempts + 1 } ∧
      ∀ key y, p.activeQ.objAt key = some y → ¬ (p.podInfo y).timestamp < (p.podInfo ptr).timestamp := by
  have hr : Reachable timestampConfig 0 ((newPriorityQueue 0).add timestampConfig (fun _ _ => true)
      ⟨"default", "web", "default-scheduler"⟩) := reachable_add_newPriorityQueue _ _
  -- the pod the `Add` let through is the one position of `activeQ`
  have hpos : 0 < ((newPriorityQueue 0).add timestampConfig (fun _ _ => true)
      ⟨"default", "web", "default-scheduler"⟩).activeQ.queue.length := by
    rw [PriorityQueue.add_of_pass (fun _ _ => rfl) rfl rfl]
    show 0 < (Data.add _ Data.empty _ _).queue.length
    rw [Data.add_of_queue_eq_nil rfl rfl]
    exact Nat.zero_lt_one
  have hw := (PriorityQueue.closed_wellformed timestampConfig).reachable
    (PriorityQueue.wellformed_newPriorityQueue 0) hr
  obtain ⟨q, ptr, hpop⟩ := hw.pop_ok timestampConfig hpos
  exact ⟨_, q, ptr, fun _ _ => rfl, fun _ _ _ => rfl, hr, hpop,
    reachable_pop_least QueuedPodInfo.timestamp (fun _ _ => rfl) (fun _ _ _ => rfl) hr hpop⟩

end Scheduler
end Kubernetes
