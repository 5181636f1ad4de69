import PrisonVisits.Calendar.Date

/-! Weekly schedules. A schedule fires on one weekday every few weeks, counted from the first such
day on or after its start, until its last day or the end of the calendar. Its dates in a window form
an evenly spaced run, which is described by its start, its step and its length and never listed
unless asked for. Two schedules meet if some date belongs to both; the dates of both repeat together
after the least common multiple of their steps, so one such period is looked through. The period is
counted in 64 bits: one of more than 2 ^ 63 days goes round and may even end before it starts. -/

namespace PrisonVisits

/-- Evenly spaced dates: so many of them, so many days apart, from the first one on. -/
structure DateRun where
  start : Date
  step : Nat
  length : Nat

namespace DateRun

def empty : DateRun := ⟨Date.first, 1, 0⟩

def toList (r : DateRun) : List Date :=
  (List.range r.length).filterMap fun i => r.start.addDays? (r.step * i : Nat)

/-- The first few dates of the run. -/
def take (r : DateRun) (n : Nat) : DateRun := { r with length := min n r.length }

/-- The dates from the start up to the last day allowed. -/
def upTo (start : Date) (step : Nat) (last : Date) : DateRun :=
  if start ≤ last then ⟨start, step, (start.daysUntil last).toNat / step + 1⟩ else empty

end DateRun

structure Schedule where
  dayOfWeek : Weekday
  validFrom : Date
  validTo : Option Date
  weeklyFrequency : UInt32
deriving DecidableEq

namespace Schedule

/-- Weeks between two dates of the schedule. A frequency of zero counts as one. -/
def weeks (s : Schedule) : Nat := max s.weeklyFrequency.toNat 1

def step (s : Schedule) : Nat := 7 * s.weeks

/-- The first date, unless it would lie past the end of the calendar. -/
def firstDate (s : Schedule) : Option Date :=
  s.validFrom.addDays? (((s.dayOfWeek.index : Int) - s.validFrom.weekday.index) % 7)

/-- The schedule's last day allows the date. -/
def reaches (s : Schedule) (date : Date) : Bool :=
  match s.validTo with
  | some last => date ≤ last
  | none => true

def firesOn (s : Schedule) (date : Date) : Bool :=
  match s.firstDate with
  | none => false
  | some d => d ≤ date && s.reaches date && d.daysUntil date % s.step == 0

/-- The first date of the schedule on or after the given one; its last day is not looked at. -/
def nextFrom (s : Schedule) (date : Date) : Option Date :=
  match s.firstDate with
  | none => none
  | some d =>
    if date ≤ d then some d
    else d.addDays? ((d.daysUntil date + s.step - 1) / s.step * s.step)

/-- The dates of the schedule from the first to the last day of a window. -/
def datesBetween (s : Schedule) (windowStart windowEnd : Date) : DateRun :=
  match s.nextFrom windowStart with
  | none => .empty
  | some start =>
    .upTo start s.step (match s.validTo with
      | some last => min last windowEnd
      | none => windowEnd)

/-- Days after which the dates of both schedules repeat together. They are counted in 64 bits with a
sign, and a longer period goes round. -/
def period (a b : Schedule) : Int := Int.bmod (7 * Nat.lcm a.weeks b.weeks : Nat) Int64.size

/-- The last day on which a meeting is looked for: the end of the first common period, which is the
end of the calendar if the period leads out of it at either side, but no later than the last day of
either schedule. -/
def meetingEnd (a b : Schedule) (start : Date) : Date :=
  let stop := (start.addDays? (period a b)).getD Date.last
  let stop := match a.validTo with
    | some last => min stop last
    | none => stop
  match b.validTo with
  | some last => min stop last
  | none => stop

/-- Some date up to the meeting end belongs to both schedules. The dates of the slower one are
tried, as they are fewer. -/
def meets (a b : Schedule) : Bool :=
  a.dayOfWeek == b.dayOfWeek &&
    match a.firstDate, b.firstDate with
    | some firstA, some firstB =>
      let start := max firstA firstB
      let stop := meetingEnd a b start
      if a.weeks ≤ b.weeks then (b.datesBetween start stop).toList.any a.firesOn
      else (a.datesBetween start stop).toList.any b.firesOn
    | _, _ => false

end Schedule

/-- How an administrator describes a recurring session. -/
inductive Recurrence where
  /-- Once, on the first day. -/
  | single
  /-- On one weekday, every so many weeks. -/
  | weekly (dayOfWeek : Weekday) (every : UInt32)
  /-- Every day of the week. -/
  | daily

namespace Recurrence

/-- The weekly schedules that a description stands for. -/
def schedules (r : Recurrence) (validFrom : Date) (validTo : Option Date) : List Schedule :=
  match r with
  | single => [⟨validFrom.weekday, validFrom, some validFrom, 1⟩]
  | weekly dayOfWeek every => [⟨dayOfWeek, validFrom, validTo, every⟩]
  | daily => Weekday.all.map fun dayOfWeek => ⟨dayOfWeek, validFrom, validTo, 1⟩

end Recurrence

end PrisonVisits
