import Mathlib.Logic.Function.Iterate
import Mathlib.Tactic.Linarith
import Kubernetes.CronJob.Spec

/-!
# CronJob: the most recent missed schedule

`getMostRecentScheduleTime(earliestTime, now, schedule)` (`pkg/controller/cronjob/utils.go`)
tells the CronJob controller which scheduled time to start a Job for and how many it
missed.  It does not walk the schedule: it takes the first two firing times `t1` and `t2`
after `earliestTime` and extrapolates from the gap between them.  On a schedule whose gaps
are all equal this finds the latest firing time up to `now` and their number
(`getMostRecentScheduleTime_periodic`); on one whose gaps differ it can return a time at
which the schedule does not fire (`getMostRecentScheduleTime_uneven_schedule`).

Times (`time.Time` in UTC) are nanoseconds since the Unix epoch, and durations are
nanoseconds.  `Duration.Seconds()` is a `float64` whose conversion back to `int64` is taken
exact: `durationSeconds` truncates the quotient.

The schedules are `cron.SpecSchedule`s (`vendor/github.com/robfig/cron/v3/spec.go`) whose
day of month, month and day of week are all `*`, in UTC: `SpecSchedule.Next` then moves
only through the hours, minutes and seconds of the day, which `DailySpec.next` models loop
for loop.
-/

namespace Kubernetes
namespace CronJob

/-- `time.Second`, in nanoseconds. -/
def second : Int := 1000000000
attribute [grind] second

/-- `cron.Schedule`: `Next` on times in nanoseconds since the epoch. -/
structure Schedule where
  next : Int → Int

/-! ## `getMostRecentScheduleTime` -/

/-- `Duration.Round(m)`: the multiple of `m` nearest to `d`, halves away from zero
(`lessThanHalf`).  The saturation at the ends of the `int64` range is left out. -/
def durationRound (d m : Int) : Int :=
  if m ≤ 0 then d
  else
    let r := d.tmod m
    if d < 0 then
      let r := -r
      if r + r < m then d + r else d - m + r
    else if r + r < m then d - r else d + m - r
attribute [grind] durationRound

/-- `int64(d.Seconds())`: the whole seconds of `d`, truncated toward zero. -/
def durationSeconds (d : Int) : Int :=
  d.tdiv second
attribute [grind] durationSeconds

/-- `t.Unix()`: the whole seconds since the epoch, rounded down. -/
def unix (t : Int) : Int :=
  t / second
attribute [grind] unix

/-- `time.Unix(sec, 0)`. -/
def ofUnix (sec : Int) : Int :=
  sec * second
attribute [grind] ofUnix

/-- `getMostRecentScheduleTime`: the latest scheduled time after `earliestTime` up to `now`
and the number of scheduled times in between, extrapolated from the first two. -/
def getMostRecentScheduleTime (earliestTime now : Int) (schedule : Schedule) :
    Except String (Option Int × Int) :=
  let t1 := schedule.next earliestTime
  let t2 := schedule.next t1
  if now < t1 then .ok (none, 0)
  else if now < t2 then .ok (some t1, 1)
  else
    let timeBetweenTwoSchedules := durationSeconds (durationRound (t2 - t1) second)
    if timeBetweenTwoSchedules < 1 then
      .error "time difference between two schedules less than 1 second"
    else
      let timeElapsed := durationSeconds (now - t1)
      let numberOfMissedSchedules := timeElapsed.tdiv timeBetweenTwoSchedules + 1
      let t := ofUnix (unix t1 + (numberOfMissedSchedules - 1) * timeBetweenTwoSchedules)
      .ok (some t, numberOfMissedSchedules)
attribute [grind] getMostRecentScheduleTime

/-- A whole number of seconds is already rounded to the second. -/
theorem durationRound_mul_second {k : Int} (hk : 0 ≤ k) :
    durationRound (k * second) second = k * second := by
  have hpos : (0 : Int) < second := by decide
  have hmod : (k * second).tmod second = 0 := by
    rw [Int.tmod_eq_emod_of_nonneg (Int.mul_nonneg hk hpos.le), Int.mul_emod_left]
  unfold durationRound
  rw [if_neg (not_le.mpr hpos), if_neg (not_lt.mpr (Int.mul_nonneg hk hpos.le))]
  simp [hmod, hpos]

theorem durationSeconds_mul_second (k : Int) : durationSeconds (k * second) = k := by
  unfold durationSeconds
  rw [Int.tdiv_eq_ediv_of_dvd (Int.dvd_mul_left k second), Int.mul_ediv_cancel _ (by decide)]

/-- The first firing time `t1` and the ones after it, `Next` applied `n` times. -/
theorem Schedule.iterate_succ (s : Schedule) (earliest : Int) (n : Nat) :
    s.next^[n + 1] earliest = s.next (s.next^[n] earliest) :=
  Function.iterate_succ_apply' s.next n earliest

/-- On a schedule that fires every `p` seconds from its first firing time `t1`, a whole
second, `getMostRecentScheduleTime` is exact: either `now` is before `t1` and it returns no
time, or it returns the `n`-th firing time, the last one up to `now`, and `n`. -/
theorem getMostRecentScheduleTime_periodic (s : Schedule) (earliest now : Int) {p : Int}
    (hp : 0 < p) (hwhole : s.next earliest % second = 0)
    (hper : ∀ k : Nat, s.next^[k + 1] earliest = s.next earliest + k * (p * second)) :
    (now < s.next earliest ∧ getMostRecentScheduleTime earliest now s = .ok (none, 0)) ∨
      ∃ n : Nat, 0 < n ∧
        getMostRecentScheduleTime earliest now s = .ok (some (s.next^[n] earliest), n) ∧
        s.next^[n] earliest ≤ now ∧ now < s.next^[n + 1] earliest := by
  have hsecond : (0 : Int) < second := by decide
  have ht2 : s.next (s.next earliest) = s.next earliest + p * second := by
    have := hper 1
    rw [Schedule.iterate_succ, Function.iterate_one] at this
    simpa using this
  unfold getMostRecentScheduleTime
  simp only [ht2]
  generalize ht1 : s.next earliest = t1 at *
  by_cases hbefore : now < t1
  · exact .inl ⟨hbefore, if_pos hbefore⟩
  right
  rw [if_neg hbefore]
  have hfirst : s.next^[1] earliest = t1 := by rw [Function.iterate_one, ht1]
  by_cases hsecondFiring : now < t1 + p * second
  · -- before the second firing time: the first one, once
    refine ⟨1, Nat.one_pos, ?_, ?_, ?_⟩
    · rw [if_pos hsecondFiring, hfirst]
      rfl
    · rw [hfirst]
      exact not_lt.mp hbefore
    · rw [hper 1]
      simpa using hsecondFiring
  · -- extrapolated from the gap of `p` seconds
    rw [if_neg hsecondFiring, add_sub_cancel_left, durationRound_mul_second hp.le,
      durationSeconds_mul_second, if_neg (not_lt.mpr hp)]
    generalize helapsed : durationSeconds (now - t1) = elapsed
    have helapsed_eq : elapsed = (now - t1) / second := by
      rw [← helapsed]
      exact Int.tdiv_eq_ediv_of_nonneg (by omega)
    have hlow : elapsed * second ≤ now - t1 := by
      rw [helapsed_eq]
      exact Int.ediv_mul_le _ (by decide)
    have hhigh : now - t1 < (elapsed + 1) * second := by
      rw [helapsed_eq]
      exact Int.lt_ediv_add_one_mul_self _ hsecond
    have hgap : p ≤ elapsed := by
      by_contra hlt
      have : (elapsed + 1) * second ≤ p * second :=
        Int.mul_le_mul_of_nonneg_right (by omega) hsecond.le
      omega
    have hquot : elapsed.tdiv p = elapsed / p := Int.tdiv_eq_ediv_of_nonneg (by omega)
    have hq : 0 ≤ elapsed / p := Int.ediv_nonneg (by omega) hp.le
    have hqlow : elapsed / p * p ≤ elapsed := Int.ediv_mul_le _ hp.ne'
    have hqhigh : elapsed < (elapsed / p + 1) * p := Int.lt_ediv_add_one_mul_self _ hp
    -- the `n`-th firing time is `t1` plus `n - 1` gaps
    have hfiring : ∀ k : Nat, s.next^[k + 1] earliest = t1 + k * (p * second) := hper
    have hnth : s.next^[(elapsed / p).toNat + 1] earliest = t1 + elapsed / p * (p * second) := by
      rw [hfiring, Int.toNat_of_nonneg hq]
    have hnext : s.next^[(elapsed / p).toNat + 1 + 1] earliest =
        t1 + (elapsed / p + 1) * (p * second) := by
      rw [hfiring]
      push_cast
      rw [Int.toNat_of_nonneg hq]
    refine ⟨(elapsed / p).toNat + 1, Nat.succ_pos _, ?_, ?_, ?_⟩
    · have htime : ofUnix (unix t1 + (elapsed / p + 1 - 1) * p) = t1 + elapsed / p * (p * second) := by
        have hsplit := Int.mul_ediv_add_emod t1 second
        rw [hwhole, add_zero] at hsplit
        unfold ofUnix unix
        rw [add_sub_cancel_right, add_mul, mul_comm (t1 / second), hsplit, mul_assoc]
      have hcount : elapsed / p + 1 = (((elapsed / p).toNat + 1 : Nat) : Int) := by
        push_cast
        rw [Int.toNat_of_nonneg hq]
      rw [hquot, htime, hnth, ← hcount]
    · -- it is not after `now`
      rw [hnth]
      have : elapsed / p * p * second ≤ elapsed * second :=
        Int.mul_le_mul_of_nonneg_right hqlow hsecond.le
      rw [← mul_assoc]
      omega
    · -- and the next one is
      rw [hnext]
      have : (elapsed + 1) * second ≤ (elapsed / p + 1) * p * second :=
        Int.mul_le_mul_of_nonneg_right (by omega) hsecond.le
      rw [← mul_assoc]
      omega

/-- `cron.ParseStandard("0 0,6 * * *")` in UTC: at 00:00 and 06:00 every day. -/
def midnightAndSix : Schedule :=
  ⟨(⟨[0], [0], [0, 6]⟩ : Cron.DailySpec).next⟩
attribute [grind] midnightAndSix

/-- From Monday 2024-01-01 00:00 UTC to Wednesday 01:00, `0 0,6 * * *` fires at Monday 06:00,
Tuesday 00:00, Tuesday 06:00 and Wednesday 00:00, and next at Wednesday 06:00.  The gap
between the first two is 18 hours, so `getMostRecentScheduleTime` returns Tuesday 18:00,
between the third and fourth firing times, and counts 3 of the 4. -/
theorem getMostRecentScheduleTime_uneven_schedule :
    getMostRecentScheduleTime (1704067200 * second) ((1704067200 + 2 * 86400 + 3600) * second)
        midnightAndSix = .ok (some ((1704067200 + 86400 + 18 * 3600) * second), 3) ∧
      (List.range 5).map (fun k => midnightAndSix.next^[k + 1] (1704067200 * second)) =
        [(1704067200 + 6 * 3600) * second, (1704067200 + 86400) * second,
          (1704067200 + 86400 + 6 * 3600) * second, (1704067200 + 2 * 86400) * second,
          (1704067200 + 2 * 86400 + 6 * 3600) * second] :=
  ⟨rfl, by decide⟩

end CronJob
end Kubernetes
