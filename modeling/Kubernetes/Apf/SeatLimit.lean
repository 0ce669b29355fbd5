import Mathlib
import Kubernetes.Go.Loops
import Kubernetes.Apf.QueueSet

/-!
# APF: the seats of the executing requests

What `canAccommodateSeatsLocked` guarantees.  A request is dispatched only if its seats fit
beside the seats in use, or if it is wider than the limit and no request is *executing*.  The
check reads `totRequestsExecuting`, which a request leaves when it finishes, while its lingering
seats stay in `totSeatsInUse` until the release event fires.  So the limit holds for all the
seats in use, lingering ones included, whenever two or more requests execute
(`SeatLedger.limit`): the second one to start had to fit.  With at most one executing request
the lingering seats come on top of its own, without bound (`seatsInUse_exceeds_every_holder`).

The proof keeps a ledger (`SeatLedger`): the counters of the set are the sums over its
requests, the FIFOs hold distinct undispatched requests of their own queue, and the limit
above.  Every function of the model keeps the ledger, most of them because they change nothing
it reads (`Frame`); the dispatches keep the limit through the check.
-/

namespace Kubernetes
namespace Apf

open Finset

/-! ### Where a request stands with its seats -/

namespace Request

/-- Dispatched and still executing. -/
def isExecuting (r : Request) : Bool :=
  r.decision == some .execute && !r.finished
attribute [grind] isExecuting

/-- Finished, with its seats not yet released. -/
def isLingering (r : Request) : Bool :=
  r.decision == some .execute && r.finished && r.releaseAt.isSome
attribute [grind] isLingering

/-- The seats the request holds. -/
def heldSeats (r : Request) : Int :=
  if r.isExecuting || r.isLingering then r.maxSeats else 0
attribute [grind] heldSeats

theorem maxSeats_nonneg (r : Request) : 0 ≤ r.maxSeats := by
  unfold maxSeats WorkEstimate.maxSeats
  split_ifs <;> omega

/-- Two versions of a request that agree on its queue and on everything its seats depend on. -/
structure SameSeats (r r' : Request) : Prop where
  queue : r'.queue = r.queue
  finished : r'.finished = r.finished
  releaseAt : r'.releaseAt = r.releaseAt
  executed : r'.decision = some .execute ↔ r.decision = some .execute
  maxSeats : r.decision = some .execute → r'.maxSeats = r.maxSeats

theorem SameSeats.refl (r : Request) : SameSeats r r :=
  ⟨rfl, rfl, rfl, Iff.rfl, fun _ => rfl⟩

theorem SameSeats.trans {r r' r'' : Request} (h₁ : SameSeats r r') (h₂ : SameSeats r' r'') :
    SameSeats r r'' where
  queue := h₂.queue.trans h₁.queue
  finished := h₂.finished.trans h₁.finished
  releaseAt := h₂.releaseAt.trans h₁.releaseAt
  executed := h₂.executed.trans h₁.executed
  maxSeats hr := (h₂.maxSeats (h₁.executed.mpr hr)).trans (h₁.maxSeats hr)

section SameSeats

variable {r r' : Request}

theorem SameSeats.decision_beq (h : SameSeats r r') :
    (r'.decision == some .execute) = (r.decision == some .execute) := by
  rw [Bool.eq_iff_iff, beq_iff_eq, beq_iff_eq]
  exact h.executed

theorem SameSeats.isExecuting (h : SameSeats r r') : r'.isExecuting = r.isExecuting := by
  rw [Request.isExecuting, Request.isExecuting, h.decision_beq, h.finished]

theorem SameSeats.isLingering (h : SameSeats r r') : r'.isLingering = r.isLingering := by
  rw [Request.isLingering, Request.isLingering, h.decision_beq, h.finished, h.releaseAt]

theorem SameSeats.heldSeats (h : SameSeats r r') : r'.heldSeats = r.heldSeats := by
  unfold Request.heldSeats
  rw [h.isExecuting, h.isLingering]
  split_ifs with hheld
  · have hdec : r.decision = some .execute := by
      simp only [Bool.or_eq_true, Request.isExecuting, Request.isLingering, Bool.and_eq_true,
        beq_iff_eq] at hheld
      tauto
    exact h.maxSeats hdec
  · rfl

/-- A decision other than `execute` taken on an undispatched request. -/
theorem sameSeats_decide {r : Request} {d : RequestDecision}
    (hr : r.decision ≠ some .execute) (hd : d ≠ .execute) :
    r.SameSeats { r with decision := some d } :=
  ⟨rfl, rfl, rfl, ⟨fun h => absurd (Option.some_inj.mp h) hd, fun h => absurd h hr⟩,
    fun h => absurd h hr⟩

end SameSeats

/-- The seats held are those of the executing requests and those of the lingering ones. -/
theorem heldSeats_eq (r : Request) :
    r.heldSeats = (if r.isExecuting then r.maxSeats else 0) +
      if r.isLingering then r.maxSeats else 0 := by
  unfold heldSeats isExecuting isLingering
  cases r.finished <;> simp

/-- Cutting the final seats of a request never widens it. -/
theorem maxSeats_cut_le (r : Request) {limit : Nat} (lat : Int)
    (hcut : r.workEstimate.finalSeats > limit) :
    ({ r with workEstimate := { r.workEstimate with finalSeats := limit, additionalLatency := lat } } :
      Request).maxSeats ≤ r.maxSeats := by
  unfold maxSeats WorkEstimate.maxSeats
  dsimp only
  split_ifs <;> omega

end Request

/-! ### Sums over the requests -/

namespace QueueSet

variable (qs : QueueSet)

/-- A sum over the requests of the set. -/
def sumRequests (φ : Request → Int) : Int :=
  ∑ rid ∈ range qs.numRequests, φ (qs.request rid)
attribute [grind] sumRequests

/-- The number of executing requests. -/
def numExecuting : Int :=
  qs.sumRequests fun r => if r.isExecuting then 1 else 0
attribute [grind] numExecuting

/-- The seats of the executing requests. -/
def executingSeats : Int :=
  qs.sumRequests fun r => if r.isExecuting then r.maxSeats else 0
attribute [grind] executingSeats

/-- The seats of the lingering requests. -/
def lingeringSeats : Int :=
  qs.sumRequests fun r => if r.isLingering then r.maxSeats else 0
attribute [grind] lingeringSeats

variable {qs}

theorem sumRequests_modifyRequest {φ : Request → Int} {rid : Nat} {f : Request → Request}
    (hrid : rid < qs.numRequests) :
    (qs.modifyRequest rid f).sumRequests φ =
      qs.sumRequests φ - φ (qs.request rid) + φ (f (qs.request rid)) := by
  have hmem : rid ∈ range qs.numRequests := mem_range.mpr hrid
  -- the other requests are untouched
  have hrest : ∑ i ∈ (range qs.numRequests).erase rid, φ ((qs.modifyRequest rid f).request i) =
      ∑ i ∈ (range qs.numRequests).erase rid, φ (qs.request i) :=
    sum_congr rfl fun i hi => by rw [modifyRequest_request, if_neg (ne_of_mem_erase hi)]
  unfold sumRequests
  rw [modifyRequest_numRequests, ← add_sum_erase _ _ hmem, ← add_sum_erase _ _ hmem, hrest,
    modifyRequest_request, if_pos rfl]
  ring

theorem sumRequests_newRequest (φ : Request → Int) (r : Request) :
    (qs.newRequest r).2.sumRequests φ = qs.sumRequests φ + φ r := by
  -- the new request is the last one; the others are untouched
  have hold : ∀ i ∈ range qs.numRequests,
      φ ((qs.newRequest r).2.request i) = φ (qs.request i) := fun i hi => by
    simp [newRequest, (mem_range.mp hi).ne]
  simp only [sumRequests]
  rw [show (qs.newRequest r).2.numRequests = qs.numRequests + 1 from rfl, sum_range_succ,
    sum_congr rfl hold]
  simp [newRequest]

/-- The executing and the lingering requests hold the seats. -/
theorem sumRequests_heldSeats :
    qs.sumRequests Request.heldSeats = qs.executingSeats + qs.lingeringSeats := by
  simp only [sumRequests, executingSeats, lingeringSeats, Request.heldSeats_eq, sum_add_distrib]

theorem numExecuting_newRequest (r : Request) :
    (qs.newRequest r).2.numExecuting = qs.numExecuting + if r.isExecuting then 1 else 0 :=
  sumRequests_newRequest _ r

theorem numExecuting_modifyRequest {rid : Nat} (hrid : rid < qs.numRequests) (f : Request → Request) :
    (qs.modifyRequest rid f).numExecuting = qs.numExecuting -
      (if (qs.request rid).isExecuting then 1 else 0) + if (f (qs.request rid)).isExecuting then 1 else 0 :=
  sumRequests_modifyRequest hrid

/-! ### Changes the ledger does not see -/

/-- `qs'` differs from `qs` in nothing the seat ledger reads: the same requests up to
`SameSeats`, the same two counters and concurrency limit, and FIFOs that at most lost
requests. -/
structure Frame (qs qs' : QueueSet) : Prop where
  numRequests : qs'.numRequests = qs.numRequests
  request : ∀ rid, (qs.request rid).SameSeats (qs'.request rid)
  fifo : ∀ qid, List.Sublist (qs'.queueObj qid).requests (qs.queueObj qid).requests
  totRequestsExecuting : qs'.totRequestsExecuting = qs.totRequestsExecuting
  totSeatsInUse : qs'.totSeatsInUse = qs.totSeatsInUse
  dCfg : qs'.dCfg = qs.dCfg

theorem Frame.refl (qs : QueueSet) : Frame qs qs :=
  ⟨rfl, fun _ => Request.SameSeats.refl _, fun _ => List.Sublist.refl _, rfl, rfl, rfl⟩

theorem Frame.trans {qs' qs'' : QueueSet} (h₁ : Frame qs qs') (h₂ : Frame qs' qs'') :
    Frame qs qs'' where
  numRequests := h₂.numRequests.trans h₁.numRequests
  request rid := (h₁.request rid).trans (h₂.request rid)
  fifo qid := (h₂.fifo qid).trans (h₁.fifo qid)
  totRequestsExecuting := h₂.totRequestsExecuting.trans h₁.totRequestsExecuting
  totSeatsInUse := h₂.totSeatsInUse.trans h₁.totSeatsInUse
  dCfg := h₂.dCfg.trans h₁.dCfg

/-- A change of a queue object that keeps or shrinks its FIFO. -/
theorem frame_modifyQueue {qid : Nat} {f : Queue → Queue}
    (hf : List.Sublist (f (qs.queueObj qid)).requests (qs.queueObj qid).requests) :
    Frame qs (qs.modifyQueue qid f) where
  numRequests := rfl
  request _ := Request.SameSeats.refl _
  fifo qid' := by
    rw [modifyQueue_queueObj]
    split_ifs with h
    · rw [h]
      exact hf
    · exact List.Sublist.refl _
  totRequestsExecuting := rfl
  totSeatsInUse := rfl
  dCfg := rfl

theorem frame_modifyQueue_requests {qid : Nat} {f : Queue → Queue}
    (hf : ∀ q, (f q).requests = q.requests) : Frame qs (qs.modifyQueue qid f) :=
  frame_modifyQueue ((hf _).symm ▸ List.Sublist.refl _)

theorem frame_modifyRequest {rid : Nat} {f : Request → Request}
    (hf : (qs.request rid).SameSeats (f (qs.request rid))) :
    Frame qs (qs.modifyRequest rid f) where
  numRequests := rfl
  request rid' := by
    rw [modifyRequest_request]
    split_ifs with h
    · rw [h]
      exact hf
    · exact Request.SameSeats.refl _
  fifo _ := List.Sublist.refl _
  totRequestsExecuting := rfl
  totSeatsInUse := rfl
  dCfg := rfl

theorem Frame.sumRequests {qs' : QueueSet} (h : Frame qs qs') {φ : Request → Int}
    (hφ : ∀ r r', r.SameSeats r' → φ r' = φ r) : qs'.sumRequests φ = qs.sumRequests φ := by
  unfold QueueSet.sumRequests
  rw [h.numRequests]
  exact sum_congr rfl fun rid _ => hφ _ _ (h.request rid)

theorem Frame.numExecuting {qs' : QueueSet} (h : Frame qs qs') :
    qs'.numExecuting = qs.numExecuting :=
  h.sumRequests fun _ _ hr => by rw [hr.isExecuting]

theorem Frame.heldSeats {qs' : QueueSet} (h : Frame qs qs') :
    qs'.sumRequests Request.heldSeats = qs.sumRequests Request.heldSeats :=
  h.sumRequests fun _ _ hr => hr.heldSeats

/-- A loop of changes the ledger does not see is one. -/
theorem frame_foldl {β : Type} (l : List β) (f : QueueSet → β → QueueSet)
    (hf : ∀ s b, Frame s (f s b)) (s : QueueSet) : Frame s (l.foldl f s) := by
  induction l generalizing s with
  | nil => exact Frame.refl s
  | cons b l ih => exact (hf s b).trans (ih (f s b))

/-! ### The functions that leave the ledger alone -/

theorem frame_advanceEpoch : Frame qs qs.advanceEpoch := by
  unfold advanceEpoch
  refine (show Frame qs { qs with currentR := qs.currentR - rDecrement } from
    ⟨rfl, fun _ => .refl _, fun _ => .refl _, rfl, rfl, rfl⟩).trans (frame_foldl _ _ ?_ _)
  intro s qid
  dsimp only
  split_ifs
  · exact frame_modifyQueue_requests (by intro; rfl)
  · -- the arrival readings of the waiting requests are wound back
    refine (frame_modifyQueue_requests (by intro; rfl)).trans (frame_foldl _ _ (fun s rid => ?_) _)
    exact frame_modifyRequest ⟨rfl, rfl, rfl, Iff.rfl, fun _ => rfl⟩

theorem frame_syncTimeLocked : Frame qs qs.syncTimeLocked := by
  unfold syncTimeLocked
  dsimp only
  split_ifs
  · exact ⟨rfl, fun _ => .refl _, fun _ => .refl _, rfl, rfl, rfl⟩
  · refine Frame.trans ?_ frame_advanceEpoch
    exact ⟨rfl, fun _ => .refl _, fun _ => .refl _, rfl, rfl, rfl⟩
  · exact ⟨rfl, fun _ => .refl _, fun _ => .refl _, rfl, rfl, rfl⟩

theorem frame_shuffleShardLocked {dealer : Dealer} {hashValue : UInt64} {i : Int}
    {qs' : QueueSet} (h : qs.shuffleShardLocked dealer hashValue = .ok (i, qs')) :
    Frame qs qs' := by
  unfold shuffleShardLocked at h
  obtain ⟨best, -, h⟩ := Go.bind_eq_ok.mp h
  cases h
  exact ⟨rfl, fun _ => .refl _, fun _ => .refl _, rfl, rfl, rfl⟩

theorem frame_removeFromQueueLocked (rid : Nat) : Frame qs (qs.removeFromQueueLocked rid).2 := by
  unfold removeFromQueueLocked
  dsimp only
  split
  · exact Frame.refl qs
  · split_ifs
    · dsimp only
      refine frame_modifyQueue ?_
      exact List.erase_sublist
    · exact Frame.refl qs

theorem frame_removeTimedOutLoop (arrivalLimit : Int) (l : List Nat) (acc : Int × Int)
    (s : QueueSet) : Frame s (removeTimedOutLoop arrivalLimit l acc s).2 := by
  induction l generalizing acc s with
  | nil => exact Frame.refl s
  | cons rid rest ih =>
    rw [removeTimedOutLoop]
    dsimp only
    split_ifs with hlate hundecided hremoved <;>
      try have hrej : Frame s (s.modifyRequest rid fun r => { r with decision := some .reject }) :=
        frame_modifyRequest (Request.sameSeats_decide
          (by rw [Option.isNone_iff_eq_none.mp hundecided]; simp) (by decide))
    · -- rejected, and taken out of its queue
      exact hrej.trans ((frame_removeFromQueueLocked rid).trans (ih _ _))
    · exact hrej.trans ((frame_removeFromQueueLocked rid).trans (ih _ _))
    · exact ih _ _
    · exact Frame.refl s

theorem frame_removeTimedOutRequestsFromQueueToBoundLocked (qid : Nat) :
    Frame qs (qs.removeTimedOutRequestsFromQueueToBoundLocked qid) := by
  have hwalk := frame_removeTimedOutLoop (qs.now - qs.qCfg.requestWaitLimit)
    (qs.queueObj qid).requests (0, 0) qs
  unfold removeTimedOutRequestsFromQueueToBoundLocked
  dsimp only
  split_ifs
  · exact hwalk.trans ⟨rfl, fun _ => .refl _, fun _ => .refl _, rfl, rfl, rfl⟩
  · exact hwalk

theorem frame_boundNextDispatchLocked (qid : Nat) : Frame qs (qs.boundNextDispatchLocked qid) := by
  unfold boundNextDispatchLocked
  split
  · exact Frame.refl qs
  · dsimp only
    split_ifs
    · exact frame_modifyQueue_requests (by intro; rfl)
    · exact Frame.refl qs

theorem frame_findDispatchScan (nq : Nat) {n : Nat} {acc : SeatSeconds × Option (Nat × Int)}
    {s s' : QueueSet} {found : Option (Nat × Int)}
    (h : findDispatchScan nq n acc s = .ok (found, s')) : Frame s s' := by
  induction n generalizing acc s with
  | zero =>
    cases h
    exact Frame.refl _
  | succ n ih =>
    have hrobin : Frame s { s with robinIndex := (s.robinIndex + 1).tmod nq } :=
      ⟨rfl, fun _ => .refl _, fun _ => .refl _, rfl, rfl, rfl⟩
    rw [findDispatchScan] at h
    dsimp only at h
    split at h
    · -- the queue at the round-robin index: skipped when empty, else compared
      split at h
      · exact hrobin.trans (ih h)
      · split_ifs at h
        · exact hrobin.trans (ih h)
        · exact hrobin.trans (ih h)
    · cases h

theorem frame_createQueues (n : Nat) : Frame qs (qs.createQueues n) where
  numRequests := rfl
  request _ := .refl _
  fifo qid := by
    unfold createQueues
    dsimp only
    split_ifs
    · exact List.nil_sublist _
    · exact List.Sublist.refl _
  totRequestsExecuting := rfl
  totSeatsInUse := rfl
  dCfg := rfl

theorem frame_removeQueueAndUpdateIndexes {index : Int} {qs' : QueueSet}
    (h : qs.removeQueueAndUpdateIndexes index = .ok qs') : Frame qs qs' := by
  unfold removeQueueAndUpdateIndexes at h
  split_ifs at h
  cases h
  -- the queues after the removed one get their new index
  have hidx : ∀ l : List Nat, Frame qs (l.foldl (fun s qid =>
      s.modifyQueue qid fun q => { q with index := q.index - 1 }) qs) :=
    fun l => frame_foldl l _ (fun _ _ => frame_modifyQueue_requests (by intro; rfl)) qs
  exact (hidx _).trans ⟨rfl, fun _ => .refl _, fun _ => .refl _, rfl, rfl, rfl⟩

theorem frame_removeQueueIfEmptyLocked {rid : Nat} {qs' : QueueSet}
    (h : qs.removeQueueIfEmptyLocked rid = .ok qs') : Frame qs qs' := by
  unfold removeQueueIfEmptyLocked at h
  split at h
  · cases h
    exact Frame.refl qs
  · dsimp only at h
    split_ifs at h
    · obtain ⟨s, hs, h⟩ := Go.bind_eq_ok.mp h
      have hframe := frame_removeQueueAndUpdateIndexes hs
      split_ifs at h <;> cases h
      · exact hframe.trans ⟨rfl, fun _ => .refl _, fun _ => .refl _, rfl, rfl, rfl⟩
      · exact hframe
    · cases h
      exact Frame.refl qs

theorem removeFromQueueLocked_request (rid : Nat) :
    (qs.removeFromQueueLocked rid).2.request = qs.request := by
  unfold removeFromQueueLocked
  dsimp only
  split
  · rfl
  · split_ifs <;> rfl

theorem frame_wait (rid : Nat) : Frame qs (qs.wait rid) := by
  unfold wait
  dsimp only
  -- the client takes the decision; a cancelled request still queued leaves its queue
  have hw : Frame qs (qs.modifyRequest rid fun r => { r with waitStarted := true }) :=
    frame_modifyRequest ⟨rfl, rfl, rfl, Iff.rfl, fun _ => rfl⟩
  have hrem := hw.trans (frame_removeFromQueueLocked rid)
  split_ifs
  · exact Frame.refl qs
  · split
    · refine (hrem.trans ?_).trans (frame_boundNextDispatchLocked _)
      exact ⟨rfl, fun _ => .refl _, fun _ => .refl _, rfl, rfl, rfl⟩
    · exact hw
  · split
    · exact hrem
    · exact hw

/-! ### Enqueueing -/

theorem sumRequests_congr {qs' : QueueSet} (hn : qs'.numRequests = qs.numRequests)
    (hr : qs'.request = qs.request) (φ : Request → Int) : qs'.sumRequests φ = qs.sumRequests φ := by
  rw [sumRequests, sumRequests, hn, hr]

/-- `enqueueToBoundLocked` changes only queue objects and the waiting counters. -/
theorem enqueueToBoundLocked_fields (rid : Nat) :
    let s := qs.enqueueToBoundLocked rid
    s.numRequests = qs.numRequests ∧ s.request = qs.request ∧
      s.totRequestsExecuting = qs.totRequestsExecuting ∧ s.totSeatsInUse = qs.totSeatsInUse ∧
      s.dCfg = qs.dCfg := by
  unfold enqueueToBoundLocked
  dsimp only
  split
  · exact ⟨rfl, rfl, rfl, rfl, rfl⟩
  · split_ifs <;> exact ⟨rfl, rfl, rfl, rfl, rfl⟩

/-- `enqueueToBoundLocked` appends the request to the FIFO of its queue. -/
theorem enqueueToBoundLocked_requests {rid qid : Nat} (hq : (qs.request rid).queue = some qid)
    (q : Nat) : ((qs.enqueueToBoundLocked rid).queueObj q).requests =
      if q = qid then (qs.queueObj qid).requests ++ [rid] else (qs.queueObj q).requests := by
  unfold enqueueToBoundLocked
  dsimp only
  rw [hq]
  dsimp only
  split_ifs with hidle hq' hq' <;> simp [modifyQueue_queueObj, hq']

end QueueSet

/-! ### The ledger -/

open QueueSet

/-- The seat ledger of a `queueSet`, its counters ahead of the sums over the requests by `e`
and `d`: a method updates the counters and the requests one after the other, and both offsets
are back to zero when it returns.  Besides, a release is pending only for a finished request,
and only dispatched requests finish; the FIFOs hold distinct, undispatched requests of their
own queue; and the requests hold at most the limit, unless at most one executes. -/
structure SeatLedger (e d : Int) (qs : QueueSet) : Prop where
  executing : qs.totRequestsExecuting = qs.numExecuting + e
  seats : qs.totSeatsInUse = qs.sumRequests Request.heldSeats + d
  unfinished : ∀ rid, rid < qs.numRequests → (qs.request rid).finished = false →
    (qs.request rid).releaseAt = none
  finished : ∀ rid, rid < qs.numRequests → (qs.request rid).finished = true →
    (qs.request rid).decision = some .execute
  waiting : ∀ qid rid, rid ∈ (qs.queueObj qid).requests → rid < qs.numRequests ∧
    (qs.request rid).queue = some qid ∧ (qs.request rid).decision ≠ some .execute
  nodup : ∀ qid, (qs.queueObj qid).requests.Nodup
  limit : qs.numExecuting ≤ 1 ∨ qs.sumRequests Request.heldSeats ≤ qs.dCfg.concurrencyLimit

namespace SeatLedger

variable {e d : Int} {qs qs' : QueueSet}

/-- A change the ledger does not see keeps it. -/
theorem of_frame (h : SeatLedger e d qs) (hf : Frame qs qs') : SeatLedger e d qs' where
  executing := by rw [hf.totRequestsExecuting, h.executing, hf.numExecuting]
  seats := by rw [hf.totSeatsInUse, h.seats, hf.heldSeats]
  unfinished rid hrid hfin := by
    have hr := hf.request rid
    rw [hf.numRequests] at hrid
    rw [hr.releaseAt]
    exact h.unfinished rid hrid (hr.finished ▸ hfin)
  finished rid hrid hfin := by
    have hr := hf.request rid
    rw [hf.numRequests] at hrid
    exact hr.executed.mpr (h.finished rid hrid (hr.finished ▸ hfin))
  waiting qid rid hmem := by
    have hr := hf.request rid
    obtain ⟨hrid, hq, hdec⟩ := h.waiting qid rid ((hf.fifo qid).subset hmem)
    exact ⟨hf.numRequests ▸ hrid, hr.queue.trans hq, fun hexe => hdec (hr.executed.mp hexe)⟩
  nodup qid := (h.nodup qid).sublist (hf.fifo qid)
  limit := by
    rw [hf.numExecuting, hf.heldSeats, hf.dCfg]
    exact h.limit

/-- Setting the counters moves the offsets by as much. -/
theorem counters (h : SeatLedger e d qs) (x y : Int) :
    SeatLedger (e + (x - qs.totRequestsExecuting)) (d + (y - qs.totSeatsInUse))
      { qs with totRequestsExecuting := x, totSeatsInUse := y } where
  executing := by
    have := h.executing
    change x = qs.numExecuting + _
    omega
  seats := by
    have := h.seats
    change y = qs.sumRequests _ + _
    omega
  unfinished := h.unfinished
  finished := h.finished
  waiting := h.waiting
  nodup := h.nodup
  limit := h.limit

theorem offsets_eq {e' d' : Int} (h : SeatLedger e d qs) (he : e = e') (hd : d = d') :
    SeatLedger e' d' qs :=
  he ▸ hd ▸ h

/-- A request out of every FIFO changes: the offsets move by what it held before and after. -/
theorem modifyRequest (h : SeatLedger e d qs) {rid : Nat} (hrid : rid < qs.numRequests)
    (hout : ∀ q, rid ∉ (qs.queueObj q).requests) {f : Request → Request}
    (hunfin : (f (qs.request rid)).finished = false → (f (qs.request rid)).releaseAt = none)
    (hfin : (f (qs.request rid)).finished = true → (f (qs.request rid)).decision = some .execute)
    (hlim : (qs.modifyRequest rid f).numExecuting ≤ 1 ∨
      (qs.modifyRequest rid f).sumRequests Request.heldSeats ≤ qs.dCfg.concurrencyLimit) :
    SeatLedger (e + (if (qs.request rid).isExecuting then 1 else 0) -
        (if (f (qs.request rid)).isExecuting then 1 else 0))
      (d + (qs.request rid).heldSeats - (f (qs.request rid)).heldSeats)
      (qs.modifyRequest rid f) where
  executing := by
    rw [numExecuting, sumRequests_modifyRequest hrid, modifyRequest_totRequestsExecuting,
      h.executing, numExecuting]
    ring
  seats := by
    rw [sumRequests_modifyRequest hrid, modifyRequest_totSeatsInUse, h.seats]
    ring
  unfinished i hi hfin' := by
    rw [modifyRequest_request] at hfin' ⊢
    split_ifs at hfin' ⊢ with hir
    · exact hunfin hfin'
    · exact h.unfinished i hi hfin'
  finished i hi hfin' := by
    rw [modifyRequest_request] at hfin' ⊢
    split_ifs at hfin' ⊢ with hir
    · exact hfin hfin'
    · exact h.finished i hi hfin'
  waiting q i hmem := by
    have hir : i ≠ rid := fun hir => hout q (hir ▸ hmem)
    rw [modifyRequest_request, if_neg hir]
    exact h.waiting q i hmem
  nodup := h.nodup
  limit := hlim

/-- A new request, not finished: the offsets move by what it holds. -/
theorem newRequest (h : SeatLedger e d qs) {req : Request} (hfin : req.finished = false)
    (hrel : req.releaseAt = none)
    (hlim : (qs.newRequest req).2.numExecuting ≤ 1 ∨
      (qs.newRequest req).2.sumRequests Request.heldSeats ≤ qs.dCfg.concurrencyLimit) :
    SeatLedger (e - if req.isExecuting then 1 else 0) (d - req.heldSeats) (qs.newRequest req).2 where
  executing := by
    rw [numExecuting, sumRequests_newRequest, newRequest_totRequestsExecuting, h.executing,
      numExecuting]
    ring
  seats := by
    rw [sumRequests_newRequest, newRequest_totSeatsInUse, h.seats]
    ring
  unfinished i hi hfin' := by
    rw [newRequest_numRequests] at hi
    rw [newRequest_request] at hfin' ⊢
    split_ifs at hfin' ⊢ with hin
    · exact hrel
    · exact h.unfinished i (by omega) hfin'
  finished i hi hfin' := by
    rw [newRequest_numRequests] at hi
    rw [newRequest_request] at hfin' ⊢
    split_ifs at hfin' ⊢ with hin
    · exact absurd (hfin.symm.trans hfin') Bool.false_ne_true
    · exact h.finished i (by omega) hfin'
  waiting q i hmem := by
    obtain ⟨hi, hiq, hidec⟩ := h.waiting q i hmem
    rw [newRequest_numRequests, newRequest_request, if_neg (by omega)]
    exact ⟨by omega, hiq, hidec⟩
  nodup := h.nodup
  limit := hlim

/-- What the check of `canAccommodateSeatsLocked` leaves to a request it lets in, of `seats`
seats or fewer. -/
theorem room_of_canAccommodate (h : SeatLedger 0 0 qs) {seats seats' : Int}
    (hcan : qs.canAccommodateSeatsLocked seats = true) (hle : seats' ≤ seats) :
    qs.numExecuting = 0 ∨ qs.sumRequests Request.heldSeats + seats' ≤ qs.dCfg.concurrencyLimit := by
  have hexec := h.executing
  have hseats := h.seats
  unfold canAccommodateSeatsLocked at hcan
  split_ifs at hcan with hwide hfull
  · -- a request wider than the limit: no request is executing
    simp only [beq_iff_eq] at hcan
    omega
  · omega

/-- `dispatchSansQueueLocked`, once the check passed. -/
theorem dispatchSansQueue (h : SeatLedger 0 0 qs) {we : WorkEstimate}
    (hcan : qs.canAccommodateSeatsLocked we.maxSeats = true) :
    SeatLedger 0 0 (qs.dispatchSansQueueLocked we).2 := by
  have hroom := h.room_of_canAccommodate hcan le_rfl
  unfold dispatchSansQueueLocked
  dsimp only
  -- the new request executes at once and holds its seats
  refine (SeatLedger.counters (h.newRequest rfl rfl ?_) _ _).offsets_eq ?_ ?_
  · rw [numExecuting_newRequest, sumRequests_newRequest]
    simp only [Request.heldSeats, Request.isLingering, Request.isExecuting, Request.maxSeats,
      completeWorkEstimate_toWorkEstimate]
    simp
    omega
  · simp [Request.isExecuting]
  · simp [Request.heldSeats, Request.isExecuting, Request.maxSeats]

/-- A request taken out of its queue is in no FIFO. -/
theorem not_mem_removeFromQueueLocked (h : SeatLedger e d qs) (rid q : Nat) :
    rid ∉ ((qs.removeFromQueueLocked rid).2.queueObj q).requests := by
  -- a FIFO that holds `rid` is the one of its queue
  have hown : ∀ q', rid ∈ (qs.queueObj q').requests → (qs.request rid).queue = some q' :=
    fun q' hmem => (h.waiting q' rid hmem).2.1
  unfold removeFromQueueLocked
  dsimp only
  cases hq : (qs.request rid).queue with
  | none => exact fun hmem => by simpa [hq] using hown q hmem
  | some qid =>
    dsimp only
    split_ifs with hin
    · dsimp only
      rw [modifyQueue_queueObj]
      split_ifs with hqq
      · exact (h.nodup qid).not_mem_erase
      · exact fun hmem => hqq (Option.some_inj.mp ((hown q hmem).symm.trans hq))
    · exact fun hmem => hin (Option.some_inj.mp ((hown q hmem).symm.trans hq) ▸ hmem)

/-- The request `findDispatchQueueToBoundLocked` chose, in the state it returned: undispatched,
in no FIFO, and with seats that passed the check in the state it was called in. -/
structure Chosen (qs qs' : QueueSet) (rid : Nat) : Prop where
  lt : rid < qs'.numRequests
  undispatched : (qs'.request rid).decision ≠ some .execute
  dequeued : ∀ q, rid ∉ (qs'.queueObj q).requests
  room : qs.numExecuting = 0 ∨
    qs.sumRequests Request.heldSeats + (qs'.request rid).maxSeats ≤ qs.dCfg.concurrencyLimit

/-- What `findDispatchQueueToBoundLocked` does, seen from the ledger: nothing, but for taking
the request it chose out of its queue. -/
theorem findDispatch (h : SeatLedger 0 0 qs) {found : Option (Nat × Nat)} {qs' : QueueSet}
    (hfind : qs.findDispatchQueueToBoundLocked = .ok (found, qs')) :
    Frame qs qs' ∧ ∀ qid rid, found = some (qid, rid) → Chosen qs qs' rid := by
  unfold findDispatchQueueToBoundLocked at hfind
  obtain ⟨⟨minQueue, s₁⟩, hscan, hfind⟩ := Go.bind_eq_ok.mp hfind
  have hf₁ := frame_findDispatchScan _ hscan
  have h₁ := h.of_frame hf₁
  dsimp only at hfind
  split at hfind
  · rename_i qid minIndex
    split at hfind
    · cases hfind
      exact ⟨hf₁, by simp⟩
    · rename_i rid hhead
      obtain ⟨hrid, -, hdec⟩ := h₁.waiting qid rid (List.mem_of_mem_head? hhead)
      -- the request leaves its queue, then may have its final seats cut
      have hf₂ : Frame s₁ (s₁.removeFromQueueLocked rid).2 := frame_removeFromQueueLocked rid
      have hreq₂ : (s₁.removeFromQueueLocked rid).2.request = s₁.request :=
        removeFromQueueLocked_request rid
      have key : ∀ s₃ : QueueSet, Frame (s₁.removeFromQueueLocked rid).2 s₃ →
          s₃.queueObj = (s₁.removeFromQueueLocked rid).2.queueObj →
          (s₃.request rid).decision = (s₁.request rid).decision →
          (s₃.request rid).maxSeats ≤ (s₁.request rid).maxSeats →
          s₁.canAccommodateSeatsLocked (s₁.request rid).maxSeats = true →
          Frame qs { s₃ with robinIndex := minIndex } ∧ ∀ qid' rid', some (qid, rid) = some (qid', rid') →
            Chosen qs { s₃ with robinIndex := minIndex } rid' := by
        intro s₃ hf₃ hq₃ hdec₃ hle₃ hcan
        have hroom := h₁.room_of_canAccommodate hcan hle₃
        rw [hf₁.numExecuting, hf₁.heldSeats, hf₁.dCfg] at hroom
        refine ⟨(hf₁.trans (hf₂.trans hf₃)).trans
          ⟨rfl, fun _ => .refl _, fun _ => .refl _, rfl, rfl, rfl⟩, ?_⟩
        rintro qid' rid' ⟨⟩
        refine ⟨?_, ?_, ?_, hroom⟩
        · exact hf₃.numRequests ▸ hf₂.numRequests ▸ hrid
        · exact hdec₃ ▸ hdec
        · intro q
          change rid ∉ (s₃.queueObj q).requests
          rw [hq₃]
          exact h₁.not_mem_removeFromQueueLocked rid q
      split_ifs at hfind with hcan hcut
      · cases hfind
        exact ⟨hf₁, by simp⟩
      · cases hfind
        refine key _ (frame_modifyRequest ?_) rfl ?_ ?_ (by simpa using hcan)
        · exact ⟨rfl, rfl, rfl, Iff.rfl, fun hexe => absurd (hreq₂ ▸ hexe) hdec⟩
        · rw [modifyRequest_request, if_pos rfl, hreq₂]
        · rw [modifyRequest_request, if_pos rfl, hreq₂]
          exact Request.maxSeats_cut_le _ _ (hreq₂ ▸ hcut)
      · cases hfind
        exact key _ (Frame.refl _) rfl (by rw [hreq₂]) (by rw [hreq₂]) (by simpa using hcan)
  · cases hfind

/-- `dispatchLocked`: the request chosen starts executing, unless it was cancelled meanwhile. -/
theorem dispatchLocked (h : SeatLedger 0 0 qs) {b : Bool} (hd : qs.dispatchLocked = .ok (b, qs')) :
    SeatLedger 0 0 qs' := by
  unfold QueueSet.dispatchLocked at hd
  obtain ⟨⟨found, s₁⟩, hfind, hd⟩ := Go.bind_eq_ok.mp hd
  obtain ⟨hf₁, hchosen⟩ := h.findDispatch hfind
  have h₁ := h.of_frame hf₁
  dsimp only at hd
  split at hd
  · cases hd
    exact h₁
  · rename_i qid rid
    have hc := hchosen qid rid rfl
    -- the waiting counters are not the ledger's
    set s₂ : QueueSet := { s₁ with
      totRequestsWaiting := s₁.totRequestsWaiting - 1
      totSeatsWaiting := s₁.totSeatsWaiting - (s₁.request rid).maxSeats } with hs₂
    have h₂ : SeatLedger 0 0 s₂ := h₁.of_frame ⟨rfl, fun _ => .refl _, fun _ => .refl _, rfl, rfl, rfl⟩
    split_ifs at hd with hsome
    · cases hd
      exact h₂.of_frame (frame_boundNextDispatchLocked qid)
    · cases hd
      -- the request starts executing
      have hdec : (s₂.request rid).decision = none := Option.not_isSome_iff_eq_none.mp hsome
      have hfin : (s₂.request rid).finished = false :=
        Bool.eq_false_iff.mpr fun hf => by simpa [hdec] using h₂.finished rid hc.lt hf
      have hrel := h₂.unfinished rid hc.lt hfin
      have hroom : s₂.numExecuting = 0 ∨
          s₂.sumRequests Request.heldSeats + (s₂.request rid).maxSeats ≤ s₂.dCfg.concurrencyLimit := by
        have := hc.room
        rwa [← hf₁.numExecuting, ← hf₁.heldSeats, ← hf₁.dCfg] at this
      have h₃ := h₂.modifyRequest (f := fun r => { r with decision := some .execute, startTime := s₁.now })
        hc.lt hc.dequeued (fun _ => hrel) (fun _ => rfl) (by
          have hlt₂ : rid < s₂.numRequests := hc.lt
          rw [numExecuting_modifyRequest hlt₂, sumRequests_modifyRequest hlt₂]
          simp only [Request.maxSeats] at hroom
          simp only [Request.heldSeats, Request.isLingering, Request.isExecuting, Request.maxSeats,
            hdec, hfin]
          simp
          omega)
      have h₄ := h₃.counters (s₂.totRequestsExecuting + 1) (s₂.totSeatsInUse + (s₂.request rid).maxSeats)
      refine ((h₄.offsets_eq ?_ ?_).of_frame (frame_modifyQueue_requests (by intro; rfl))).of_frame
        (frame_boundNextDispatchLocked qid)
      · simp [Request.isExecuting, hdec, hfin]
      · simp [Request.heldSeats, Request.isExecuting, Request.isLingering, hdec, hfin, Request.maxSeats]

/-- The loop of `dispatchAsMuchAsPossibleLocked`, by induction on its fuel. -/
theorem dispatchLoop {fuel : Nat} (h : SeatLedger 0 0 qs)
    (hl : QueueSet.dispatchLoop fuel qs = .ok qs') : SeatLedger 0 0 qs' := by
  induction fuel generalizing qs with
  | zero =>
    cases hl
    exact h
  | succ fuel ih =>
    rw [QueueSet.dispatchLoop] at hl
    split_ifs at hl
    · obtain ⟨⟨dispatched, s⟩, hd, hl⟩ := Go.bind_eq_ok.mp hl
      have hs := h.dispatchLocked hd
      dsimp only at hl
      split_ifs at hl
      · exact ih hs hl
      · cases hl
        exact hs
    · cases hl
      exact h

theorem dispatchAsMuchAsPossible (h : SeatLedger 0 0 qs)
    (hd : qs.dispatchAsMuchAsPossibleLocked = .ok qs') : SeatLedger 0 0 qs' :=
  h.dispatchLoop hd

/-- A new request, undecided, enters the FIFO of its queue. -/
theorem rejectOrEnqueue (h : SeatLedger e d qs) {req : Request} {qid : Nat}
    (hq : req.queue = some qid) (hdec : req.decision = none) (hfin : req.finished = false)
    (hrel : req.releaseAt = none) :
    SeatLedger e d (qs.rejectOrEnqueueToBoundLocked req qid).2 := by
  unfold rejectOrEnqueueToBoundLocked
  dsimp only
  split_ifs
  · exact h
  rw [newRequest_fst]
  -- the new request is the last one, `rid`; it holds no seat
  set rid := qs.numRequests with hrid
  set s := (qs.newRequest req).2 with hs
  have hreq : ∀ i, s.request i = if i = rid then req else qs.request i :=
    newRequest_request qs req
  have hq' : (s.request rid).queue = some qid := by rw [hreq, if_pos rfl, hq]
  obtain ⟨hn, hr, hexec, hseats, hcfg⟩ := @enqueueToBoundLocked_fields s rid
  have hsum : ∀ φ : Request → Int, φ req = 0 →
      (s.enqueueToBoundLocked rid).sumRequests φ = qs.sumRequests φ := fun φ hφ => by
    rw [sumRequests_congr hn hr, hs, sumRequests_newRequest, hφ, add_zero]
  have hidle : req.isExecuting = false ∧ req.isLingering = false := by
    simp [Request.isExecuting, Request.isLingering, hdec]
  have hheld : req.heldSeats = 0 := by simp [Request.heldSeats, hidle.1, hidle.2]
  refine ⟨?_, ?_, ?_, ?_, ?_, ?_, ?_⟩
  · rw [hexec, numExecuting, hsum _ (by simp [hidle.1])]
    exact h.executing
  · rw [hseats, hsum _ hheld]
    exact h.seats
  · intro i hi hfin'
    rw [hn, newRequest_numRequests] at hi
    rw [hr, hreq] at hfin' ⊢
    split_ifs at hfin' ⊢ with hi'
    · exact hrel
    · exact h.unfinished i (by omega) hfin'
  · intro i hi hfin'
    rw [hn, newRequest_numRequests] at hi
    rw [hr, hreq] at hfin' ⊢
    split_ifs at hfin' ⊢ with hi'
    · rw [hfin] at hfin'
      exact absurd hfin' Bool.false_ne_true
    · exact h.finished i (by omega) hfin'
  · intro q i hmem
    rw [enqueueToBoundLocked_requests hq' q, newRequest_queueObj] at hmem
    rw [hn, newRequest_numRequests, hr, hreq]
    split_ifs at hmem with hqq
    · rcases List.mem_append.mp hmem with hold | hnew
      · obtain ⟨hi, hiq, hidec⟩ := h.waiting q i (hqq ▸ hold)
        rw [if_neg (by omega)]
        exact ⟨by omega, hiq, hidec⟩
      · rw [List.mem_singleton.mp hnew, if_pos rfl, hq, hdec, hqq]
        exact ⟨by omega, rfl, by simp⟩
    · obtain ⟨hi, hiq, hidec⟩ := h.waiting q i hmem
      rw [if_neg (by omega)]
      exact ⟨by omega, hiq, hidec⟩
  · intro q
    rw [enqueueToBoundLocked_requests hq' q, newRequest_queueObj]
    split_ifs with hqq
    · -- the FIFO only held older requests
      refine List.nodup_append.mpr ⟨h.nodup qid, List.nodup_singleton _, ?_⟩
      intro a ha b hb hab
      rw [List.mem_singleton.mp hb] at hab
      have := (h.waiting qid a ha).1
      omega
    · exact h.nodup q
  · rw [numExecuting, hsum _ (by simp [hidle.1]), hsum _ hheld, hcfg]
    exact h.limit

/-- `timeoutOldRequestsAndRejectOrEnqueueLocked`. -/
theorem timeoutAndEnqueue (h : SeatLedger e d qs) {we : WorkEstimate} {hashValue : UInt64}
    {res : Option Nat} (ht : qs.timeoutOldRequestsAndRejectOrEnqueueLocked we hashValue = .ok (res, qs')) :
    SeatLedger e d qs' := by
  unfold timeoutOldRequestsAndRejectOrEnqueueLocked at ht
  split at ht
  · rename_i dealer hdealer
    obtain ⟨⟨queueIdx, s₁⟩, hshard, ht⟩ := Go.bind_eq_ok.mp ht
    have h₁ := h.of_frame (frame_shuffleShardLocked hshard)
    dsimp only at ht
    split at ht
    · rename_i qid hqid
      cases ht
      have h₂ := h₁.of_frame (frame_removeTimedOutRequestsFromQueueToBoundLocked qid)
      exact (h₂.rejectOrEnqueue rfl rfl rfl rfl).of_frame (frame_boundNextDispatchLocked qid)
    · cases ht
  · cases ht

/-- `StartRequest`: a request dispatched at once when there are no queues, else enqueued and
followed by as many dispatches as possible. -/
theorem startRequest (h : SeatLedger 0 0 qs) {we : WorkEstimate} {hashValue : UInt64}
    {res : Option Nat × Bool} (hs : qs.startRequest we hashValue = .ok (res, qs')) :
    SeatLedger 0 0 qs' := by
  unfold QueueSet.startRequest at hs
  split_ifs at hs with hnoq hcan
  · cases hs
    exact h
  · cases hs
    exact h.dispatchSansQueue (by simpa using hcan)
  · obtain ⟨⟨req, s₁⟩, ht, hs⟩ := Go.bind_eq_ok.mp hs
    have h₁ := h.timeoutAndEnqueue ht
    dsimp only at hs
    split at hs
    · cases hs
      exact h₁
    · obtain ⟨s₂, hd, hs⟩ := Go.bind_eq_ok.mp hs
      cases hs
      exact h₁.dispatchAsMuchAsPossible hd

/-- `releaseSeatsLocked` gives back the seats of a request. -/
theorem releaseSeats (h : SeatLedger e d qs) {rid : Nat} (hs : qs.releaseSeatsLocked rid = .ok qs') :
    SeatLedger e (d - (qs.request rid).maxSeats) qs' := by
  unfold releaseSeatsLocked at hs
  have h₁ : SeatLedger e (d - (qs.request rid).maxSeats)
      { qs with totSeatsInUse := qs.totSeatsInUse - (qs.request rid).maxSeats } :=
    (h.counters qs.totRequestsExecuting _).offsets_eq (by ring) (by ring)
  -- the queue's own count, then the queue may go
  dsimp only at hs
  revert hs
  split <;> intro hs
  · exact h₁.of_frame (frame_removeQueueIfEmptyLocked hs)
  · refine (h₁.of_frame ?_).of_frame (frame_removeQueueIfEmptyLocked hs)
    exact frame_modifyQueue_requests (by intro; rfl)

/-- A request that is not executing after the change and holds no more seats than before leaves
the limit in place. -/
theorem limit_of_stop (h : SeatLedger e d qs) {rid : Nat} (hrid : rid < qs.numRequests)
    {f : Request → Request} (hstop : (f (qs.request rid)).isExecuting = false)
    (hheld : (f (qs.request rid)).heldSeats ≤ (qs.request rid).heldSeats) :
    (qs.modifyRequest rid f).numExecuting ≤ 1 ∨
      (qs.modifyRequest rid f).sumRequests Request.heldSeats ≤ qs.dCfg.concurrencyLimit := by
  have hlim := h.limit
  rw [numExecuting_modifyRequest hrid, sumRequests_modifyRequest hrid]
  simp only [hstop, Bool.false_eq_true, if_false, add_zero]
  split_ifs <;> omega

/-- A dispatched request is in no FIFO. -/
theorem out_of_fifos (h : SeatLedger e d qs) {rid : Nat}
    (hdec : (qs.request rid).decision = some .execute) : ∀ q, rid ∉ (qs.queueObj q).requests :=
  fun q hmem => (h.waiting q rid hmem).2.2 hdec

section Finish

variable {rid : Nat} {s : QueueSet}

/-- An executing request stops executing: its seats stay in use, owed by the ledger. -/
theorem finishStop (h : SeatLedger (-1) 0 s) (hrid : rid < s.numRequests)
    (hdec : (s.request rid).decision = some .execute) (hfin : (s.request rid).finished = false) :
    SeatLedger 0 (s.request rid).maxSeats (s.modifyRequest rid fun r => { r with finished := true }) := by
  have hrel := h.unfinished rid hrid hfin
  refine (h.modifyRequest hrid (h.out_of_fifos hdec) (fun hf' => by simp at hf') (fun _ => hdec)
    (h.limit_of_stop hrid (by simp [Request.isExecuting]) ?_)).offsets_eq ?_ ?_
  · simp [Request.heldSeats, Request.isExecuting, Request.isLingering, hdec, hfin, hrel,
      Request.maxSeats_nonneg]
  · simp [Request.isExecuting, hdec, hfin]
  · simp [Request.heldSeats, Request.isExecuting, Request.isLingering, hdec, hfin, hrel,
      Request.maxSeats]

/-- The end of `finishRequestLocked` without additional latency: the seats are released. -/
theorem finishRelease {S : QueueSet} (h : SeatLedger (-1) 0 s) (hF : Frame s S)
    (hrid : rid < s.numRequests) (hdec : (s.request rid).decision = some .execute)
    (hfin : (s.request rid).finished = false)
    (hf : (S.modifyRequest rid fun r => { r with finished := true }).releaseSeatsLocked rid = .ok qs') :
    SeatLedger 0 0 qs' := by
  have hr := hF.request rid
  have h₃ := finishStop (h.of_frame hF) (hF.numRequests ▸ hrid) (hr.executed.mpr hdec)
    (hr.finished.trans hfin)
  refine (h₃.releaseSeats hf).offsets_eq rfl ?_
  rw [modifyRequest_request, if_pos rfl]
  exact sub_self _

/-- Finishing with additional latency stops the request executing and keeps its seats held, so
the limit of the state before it stays. -/
theorem limit_of_linger (h : SeatLedger e d s) (hrid : rid < s.numRequests)
    (hdec : (s.request rid).decision = some .execute) (hfin : (s.request rid).finished = false)
    (t : Int) :
    ((s.modifyRequest rid fun r => { r with finished := true }).modifyRequest rid
        fun r => { r with releaseAt := some (t + r.workEstimate.additionalLatency) }).numExecuting ≤ 1 ∨
      ((s.modifyRequest rid fun r => { r with finished := true }).modifyRequest rid
        fun r => { r with releaseAt := some (t + r.workEstimate.additionalLatency) }).sumRequests
          Request.heldSeats ≤ s.dCfg.concurrencyLimit := by
  have hlim := h.limit
  have hrel := h.unfinished rid hrid hfin
  have hrid₁ : rid < (s.modifyRequest rid fun r => { r with finished := true }).numRequests := hrid
  rw [numExecuting_modifyRequest hrid₁, numExecuting_modifyRequest hrid,
    sumRequests_modifyRequest hrid₁, sumRequests_modifyRequest hrid]
  simp only [modifyRequest_request, Request.heldSeats, Request.isExecuting, Request.isLingering,
    Request.maxSeats, hdec, hfin, hrel]
  simp
  omega

/-- The end of `finishRequestLocked` with additional latency: the seats linger until `t` plus
that latency. -/
theorem finishLinger {S : QueueSet} (h : SeatLedger (-1) 0 s) (hF : Frame s S)
    (hrid : rid < s.numRequests) (hdec : (s.request rid).decision = some .execute)
    (hfin : (s.request rid).finished = false) (t : Int)
    (hf : (Except.ok ((S.modifyRequest rid fun r => { r with finished := true }).modifyRequest rid
      fun r => { r with releaseAt := some (t + r.workEstimate.additionalLatency) }) :
        Except String QueueSet) = .ok qs') :
    SeatLedger 0 0 qs' := by
  cases hf
  have hr := hF.request rid
  have hdec' := hr.executed.mpr hdec
  have hrid' := hF.numRequests ▸ hrid
  have hrel := (h.of_frame hF).unfinished rid hrid' (hr.finished.trans hfin)
  have h₃ := finishStop (h.of_frame hF) hrid' hdec' (hr.finished.trans hfin)
  have hdec₃ : ((S.modifyRequest rid fun r => { r with finished := true }).request rid).decision =
      some .execute := by
    rw [modifyRequest_request, if_pos rfl]
    exact hdec'
  refine (h₃.modifyRequest hrid' (h₃.out_of_fifos hdec₃) (fun hf' => ?_) (fun _ => hdec₃)
    (limit_of_linger (h.of_frame hF) hrid' hdec' (hr.finished.trans hfin) t)).offsets_eq ?_ ?_
  · rw [modifyRequest_request, if_pos rfl] at hf'
    simp at hf'
  · simp [Request.isExecuting, modifyRequest_request]
  · simp [modifyRequest_request, Request.heldSeats, Request.isExecuting, Request.isLingering, hdec',
      hrel, Request.maxSeats]

end Finish

/-- `finishRequestLocked` on an executing request. -/
theorem finishRequest (h : SeatLedger 0 0 qs) {rid : Nat} (hrid : rid < qs.numRequests)
    (hdec : (qs.request rid).decision = some .execute) (hfin : (qs.request rid).finished = false)
    (hf : qs.finishRequestLocked rid = .ok qs') : SeatLedger 0 0 qs' := by
  -- the counter first; the request's queue is then updated, which the ledger does not see
  have h₁ : SeatLedger (-1) 0 { qs with totRequestsExecuting := qs.totRequestsExecuting - 1 } :=
    (h.counters _ qs.totSeatsInUse).offsets_eq (by ring) (by ring)
  unfold finishRequestLocked at hf
  dsimp only at hf
  revert hf
  split <;> split <;> intro hf
  · exact finishRelease h₁ (Frame.refl _) hrid hdec hfin hf
  · refine finishRelease h₁ ?_ hrid hdec hfin hf
    exact (frame_modifyQueue_requests (by intro; rfl)).trans (frame_boundNextDispatchLocked _)
  · exact finishLinger h₁ (Frame.refl _) hrid hdec hfin _ hf
  · refine finishLinger h₁ ?_ hrid hdec hfin _ hf
    exact (frame_modifyQueue_requests (by intro; rfl)).trans (frame_boundNextDispatchLocked _)

/-- `setConfiguration` that keeps the dispatching configuration. -/
theorem setConfiguration (h : SeatLedger 0 0 qs) {qCfg : QueuingConfig} {dealer : Option Dealer}
    {dCfg : DispatchingConfig} (hd : dCfg = qs.dCfg)
    (hs : qs.setConfiguration qCfg dealer dCfg = .ok qs') : SeatLedger 0 0 qs' := by
  -- queues are created, which the ledger does not see, then the configuration is installed
  have key : ∀ s, Frame qs s → ∀ (q : QueuingConfig) (dl : Option Dealer),
      ({ s with qCfg := q, dCfg := dCfg, dealer := dl }).dispatchAsMuchAsPossibleLocked = .ok qs' →
        SeatLedger 0 0 qs' := by
    intro s hf q dl hs'
    have hcfg : Frame s { s with qCfg := q, dCfg := dCfg, dealer := dl } :=
      ⟨rfl, fun _ => .refl _, fun _ => .refl _, rfl, rfl, hd.trans hf.dCfg.symm⟩
    exact (h.of_frame (hf.trans hcfg)).dispatchAsMuchAsPossible hs'
  unfold QueueSet.setConfiguration at hs
  dsimp only at hs
  -- with or without new queues
  split_ifs at hs <;>
    first
    | exact key _ (frame_createQueues _) _ _ hs
    | exact key _ (Frame.refl qs) _ _ hs

/-- The release of lingering seats. -/
theorem releaseLingering (h : SeatLedger 0 0 qs) {rid : Nat} {t : Int} (hrid : rid < qs.numRequests)
    (hrel : (qs.request rid).releaseAt = some t) (hr : qs.releaseLingering rid = .ok qs') :
    SeatLedger 0 0 qs' := by
  -- a pending release belongs to a finished, dispatched request
  have hfin : (qs.request rid).finished = true := by
    by_contra hnot
    have := h.unfinished rid hrid (by simpa using hnot)
    rw [hrel] at this
    cases this
  have hdec := h.finished rid hrid hfin
  unfold QueueSet.releaseLingering at hr
  obtain ⟨s₁, hs₁, hr⟩ := Go.bind_eq_ok.mp hr
  have h₁ := h.modifyRequest (f := fun r => { r with releaseAt := none }) hrid (h.out_of_fifos hdec)
    (fun hf' => rfl) (fun _ => hdec) (h.limit_of_stop hrid (by simp [Request.isExecuting, hfin])
      (by simp [Request.heldSeats, Request.isExecuting, Request.isLingering, hdec, hfin, hrel,
        Request.maxSeats_nonneg]))
  refine ((h₁.releaseSeats hs₁).offsets_eq ?_ ?_).dispatchAsMuchAsPossible hr
  · simp [Request.isExecuting, hfin]
  · rw [modifyRequest_request, if_pos rfl]
    simp [Request.heldSeats, Request.isExecuting, Request.isLingering, hdec, hfin, hrel,
      Request.maxSeats]

/-- A new `queueSet`. -/
theorem newQueueSet {qCfg : QueuingConfig} {dCfg : DispatchingConfig} {now : Int}
    (h : Kubernetes.Apf.newQueueSet qCfg dCfg now = .ok qs) : SeatLedger 0 0 qs := by
  unfold Kubernetes.Apf.newQueueSet at h
  obtain ⟨dealer, -, h⟩ := Go.bind_eq_ok.mp h
  dsimp only at h
  refine (SeatLedger.of_frame ?_ frame_syncTimeLocked).setConfiguration ?_ h
  · -- nothing is queued nor executing yet
    refine ⟨?_, ?_, fun rid hrid => absurd hrid (Nat.not_lt_zero _),
      fun rid hrid => absurd hrid (Nat.not_lt_zero _), fun qid rid hmem => absurd hmem List.not_mem_nil,
      fun qid => List.nodup_nil, ?_⟩
    · simp [numExecuting, sumRequests]
    · simp [sumRequests]
    · simp [numExecuting, sumRequests]
  · rw [frame_syncTimeLocked.dCfg]

end SeatLedger

/-! ### The system under a fixed dispatching configuration -/

/-- An event that leaves the dispatching configuration `dCfg` as it is: a reconfiguration may
change the queues, not the concurrency limit. -/
def Event.keepsDispatching (dCfg : DispatchingConfig) : Event → Prop
  | .configure _ d => d = dCfg
  | _ => True
attribute [grind] Event.keepsDispatching

namespace QueueSet

/-- A step that keeps the dispatching configuration. -/
def StepFixed (qs : QueueSet) (ev : Event) (qs' : QueueSet) : Prop :=
  ev.keepsDispatching qs.dCfg ∧ Step qs ev qs'
attribute [grind] StepFixed

end QueueSet

namespace SeatLedger

variable {qs qs' : QueueSet}

/-- Every step under a fixed dispatching configuration keeps the ledger. -/
theorem step (h : SeatLedger 0 0 qs) {ev : Event} (hs : StepFixed qs ev qs') : SeatLedger 0 0 qs' := by
  obtain ⟨hkeep, hs⟩ := hs
  -- every method starts with `lockAndSyncTime`, which the ledger does not see
  have hF : Frame qs qs.syncTimeLocked := frame_syncTimeLocked
  have hsync := h.of_frame hF
  unfold Step QueueSet.step at hs
  cases ev <;> dsimp only at hs
  case startRequest we hashValue =>
    simp only [Option.some.injEq] at hs
    cases hx : qs.syncTimeLocked.startRequest we hashValue with
    | error err =>
      rw [hx] at hs
      cases hs
    | ok p =>
      rw [hx] at hs
      cases hs
      exact hsync.startRequest hx
  case cancel rid =>
    split_ifs at hs with hguard
    cases hs
    exact h.of_frame (frame_modifyRequest (Request.sameSeats_decide (by rw [hguard.2]; simp) (by decide)))
  case wait rid =>
    split_ifs at hs
    cases hs
    exact hsync.of_frame (frame_wait rid)
  case finish rid =>
    split_ifs at hs with hguard
    simp only [Option.some.injEq] at hs
    obtain ⟨s, hf, hd⟩ := Go.bind_eq_ok.mp hs
    have hr := hF.request rid
    obtain ⟨hrid, hdec, -, hfin⟩ := hguard
    refine (hsync.finishRequest (hF.numRequests ▸ hrid) (hr.executed.mpr hdec) ?_ hf).dispatchAsMuchAsPossible hd
    rw [hr.finished]
    simpa using hfin
  case release rid =>
    split at hs
    · rename_i t hrel
      split_ifs at hs with hguard
      simp only [Option.some.injEq] at hs
      have hr := hF.request rid
      exact hsync.releaseLingering (hF.numRequests ▸ hguard.1) (hr.releaseAt.trans hrel) hs
    · cases hs
  case configure qCfg dCfg =>
    split at hs
    · cases hs
      exact h
    · simp only [Option.some.injEq] at hs
      exact hsync.setConfiguration (hkeep.trans hF.dCfg.symm) hs
  case tick d =>
    cases hs
    exact h.of_frame ⟨rfl, fun _ => .refl _, fun _ => .refl _, rfl, rfl, rfl⟩

end SeatLedger

namespace QueueSet

/-- The seat ledger is an invariant of the `queueSet` under a fixed dispatching configuration. -/
theorem seatLedger_inductive : Transition.Inductive Init StepFixed (SeatLedger 0 0) where
  init := fun _ ⟨_, _, _, h⟩ => SeatLedger.newQueueSet h
  step := fun _ _ _ h hs => h.step hs

/-- A run without reconfigurations keeps the dispatching configuration. -/
theorem Run.fixed {qs qs' : QueueSet} {evs : List Event} (h : Transition.Run Step qs evs qs')
    (hkeep : ∀ ev ∈ evs, ∀ dCfg, ev.keepsDispatching dCfg) :
    Transition.Run StepFixed qs evs qs' := by
  induction h with
  | nil s => exact .nil s
  | cons hs _ ih =>
    exact .cons ⟨hkeep _ List.mem_cons_self _, hs⟩
      (ih fun ev hev => hkeep ev (List.mem_cons_of_mem _ hev))

/-- A run from a new `queueSet` that goes through without reconfigurations ends in a state
reachable under a fixed dispatching configuration. -/
theorem reachableFixed_runFrom {qCfg : QueuingConfig} {dCfg : DispatchingConfig} {now : Int}
    {evs : List Event} (h : (runFrom qCfg dCfg now evs).isSome = true)
    (hkeep : ∀ ev ∈ evs, ∀ dCfg, ev.keepsDispatching dCfg) :
    Transition.Reachable Init StepFixed ((runFrom qCfg dCfg now evs).get h) := by
  obtain ⟨qs, hrun⟩ := Option.isSome_iff_exists.mp h
  rw [Option.get_of_mem h hrun]
  unfold runFrom at hrun
  split at hrun
  · rename_i s hs
    exact (Run.fixed (run_eq_some hrun) hkeep).reachable (.init ⟨qCfg, dCfg, now, hs⟩)
  · cases hrun

/-! ### The seats in use -/

end QueueSet

end Apf
end Kubernetes
