import Mathlib.Data.Int.Init

/-!
# robfig/cron: `SpecSchedule.Next` for schedules that fire every day

`cron.ParseStandard` turns a crontab line into a `SpecSchedule`, a bit set of the seconds,
minutes, hours, days of the month, months and days of the week it fires at
(`vendor/github.com/robfig/cron/v3/spec.go`).  `Next(t)` finds the first firing time after
`t`: from the next whole second it moves to a matching month, then day, hour, minute and
second, truncating the smaller fields the first time it moves one (`added`), and starts
over (`goto WRAP`) whenever a field wraps around to `0`.

When the day of month, month and day of week are all `*` (`DailySpec`), the month and day
loops never move, and in UTC the hour, minute and second of a time are those of its seconds
since the epoch; `DailySpec.next` is then the hour, minute and second loops of `Next`.  The
search ends after five years in Go (`yearLimit`); here after `wrapFuel` starts, far more
than a schedule that fires at all needs.
-/

namespace Kubernetes
namespace Cron

/-- A `SpecSchedule` in UTC whose day of month, month and day of week are `*`: the seconds,
minutes and hours of the day at which it fires. -/
structure DailySpec where
  second : List Nat
  minute : List Nat
  hour : List Nat

/-- `t.Second()` of a time in seconds since the epoch, in UTC. -/
def secondOf (t : Int) : Nat := (t % 60).toNat
attribute [grind] secondOf

/-- `t.Minute()`. -/
def minuteOf (t : Int) : Nat := (t / 60 % 60).toNat
attribute [grind] minuteOf

/-- `t.Hour()`. -/
def hourOf (t : Int) : Nat := (t / 3600 % 24).toNat
attribute [grind] hourOf

/-- Where one of the field loops of `Next` leaves the search. -/
structure LoopState where
  t : Int
  added : Bool
  wrapped : Bool

/-- One field loop of `Next` (hours, minutes or seconds): while the schedule does not fire at
the field's value, truncate the time to the field's unit the first time, then add one unit;
stop with `wrapped` (`goto WRAP`) when the field comes back to `0`. -/
def fieldLoop (fires : Nat → Bool) (field : Int → Nat) (unit : Int) :
    Nat → Int → Bool → LoopState
  | 0, t, added => ⟨t, added, false⟩
  | fuel + 1, t, added =>
      if fires (field t) then ⟨t, added, false⟩
      else
        let t := (if added then t else t - t % unit) + unit
        if field t = 0 then ⟨t, true, true⟩ else fieldLoop fires field unit fuel t true
attribute [grind] fieldLoop

/-- The starts of the search (`WRAP`): the hour loop, then the minute loop, then the second
loop, going back to the hour loop whenever one wraps.  `none` is the zero time Go returns
when nothing fires. -/
def DailySpec.wrap (s : DailySpec) : Nat → Int → Bool → Option Int
  | 0, _, _ => none
  | fuel + 1, t, added =>
      let h := fieldLoop (· ∈ s.hour) hourOf 3600 24 t added
      if h.wrapped then s.wrap fuel h.t h.added
      else
        let m := fieldLoop (· ∈ s.minute) minuteOf 60 60 h.t h.added
        if m.wrapped then s.wrap fuel m.t m.added
        else
          let sec := fieldLoop (· ∈ s.second) secondOf 1 60 m.t m.added
          if sec.wrapped then s.wrap fuel sec.t sec.added else some sec.t
attribute [grind] DailySpec.wrap

/-- The starts of the search allowed: one per second of five years. -/
def wrapFuel : Nat := 5 * 366 * 24 * 60 * 60
attribute [grind] wrapFuel

/-- `time.Time{}`, in seconds since the epoch. -/
def zeroTimeUnix : Int := -62135596800
attribute [grind] zeroTimeUnix

/-- `SpecSchedule.Next` on times in nanoseconds since the epoch: the search starts at the
next whole second. -/
def DailySpec.next (s : DailySpec) (t : Int) : Int :=
  match s.wrap wrapFuel (t / 1000000000 + 1) false with
  | some sec => sec * 1000000000
  | none => zeroTimeUnix * 1000000000
attribute [grind] DailySpec.next

end Cron
end Kubernetes
