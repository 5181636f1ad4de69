import PrisonVisits.Calendar.Date

/-! Times of day, moments and windows of time. All of them are local prison time with nanoseconds.
The last second of a minute may be a leap second: it then holds a second thousand million of
nanoseconds. Order compares dates, then seconds, then nanoseconds. -/

namespace PrisonVisits

/-- The length of a second in nanoseconds. -/
def nanosPerSecond : Nat := 1000000000

def secondsPerDay : Nat := 86400

structure TimeOfDay where
  second : Nat
  nano : Nat
  second_lt : second < secondsPerDay
  nano_lt : nano < nanosPerSecond ∨ nano < 2 * nanosPerSecond ∧ second % 60 = 59
deriving DecidableEq

namespace TimeOfDay

instance : LE TimeOfDay :=
  ⟨fun a b => a.second < b.second ∨ a.second = b.second ∧ a.nano ≤ b.nano⟩

instance : LT TimeOfDay :=
  ⟨fun a b => a.second < b.second ∨ a.second = b.second ∧ a.nano < b.nano⟩

instance (a b : TimeOfDay) : Decidable (a ≤ b) :=
  inferInstanceAs (Decidable (a.second < b.second ∨ a.second = b.second ∧ a.nano ≤ b.nano))

instance (a b : TimeOfDay) : Decidable (a < b) :=
  inferInstanceAs (Decidable (a.second < b.second ∨ a.second = b.second ∧ a.nano < b.nano))

/-- The time with the given hour, minute, second and nanoseconds. Second 60 is the leap second that
follows second 59. -/
def ofParts? (hour minute second nano : Nat) : Option TimeOfDay :=
  if h : hour < 24 ∧ minute < 60 ∧ second ≤ 60 ∧ nano < nanosPerSecond then
    if h60 : second = 60 then
      some ⟨hour * 3600 + minute * 60 + 59, nanosPerSecond + nano,
        by simp only [secondsPerDay]; omega, Or.inr ⟨by omega, by omega⟩⟩
    else
      some ⟨hour * 3600 + minute * 60 + second, nano,
        by simp only [secondsPerDay]; omega, Or.inl h.2.2.2⟩
  else none

def isLeap (t : TimeOfDay) : Bool := nanosPerSecond ≤ t.nano

def hour (t : TimeOfDay) : Nat := t.second / 3600

def minute (t : TimeOfDay) : Nat := t.second / 60 % 60

/-- The second of the minute, 60 in a leap second. -/
def secondOfMinute (t : TimeOfDay) : Nat := t.second % 60 + (if t.isLeap then 1 else 0)

/-- Nanoseconds of the second shown. -/
def fraction (t : TimeOfDay) : Nat := t.nano % nanosPerSecond

/-- A time is made up of its own parts again. -/
theorem ofParts?_parts (t : TimeOfDay) :
    ofParts? t.hour t.minute t.secondOfMinute t.fraction = some t := by
  obtain ⟨second, nano, hs, hn⟩ := t
  simp only [secondsPerDay, nanosPerSecond] at hs hn
  by_cases hleap : 1000000000 ≤ nano
  · have h59 : second % 60 = 59 := by omega
    have hsum : second / 3600 * 3600 + second / 60 % 60 * 60 + 59 = second := by omega
    have hnano : 1000000000 + nano % 1000000000 = nano := by omega
    have hb : second / 3600 < 24 ∧ second / 60 % 60 < 60 ∧ nano % 1000000000 < 1000000000 := by
      omega
    simp [ofParts?, hour, minute, secondOfMinute, fraction, isLeap, nanosPerSecond, hleap, h59,
      hsum, hnano, hb]
  · have hsum : second / 3600 * 3600 + second / 60 % 60 * 60 + second % 60 = second := by omega
    have hnano : nano % 1000000000 = nano := by omega
    have hb : second / 3600 < 24 ∧ second / 60 % 60 < 60 ∧ second % 60 ≤ 60 ∧
        nano < 1000000000 := by
      omega
    have h60 : second % 60 ≠ 60 := by omega
    simp [ofParts?, hour, minute, secondOfMinute, fraction, isLeap, nanosPerSecond, hleap,
      hsum, hnano, hb, h60]

end TimeOfDay

/-- A date and a time of day. -/
structure Moment where
  date : Date
  time : TimeOfDay
deriving DecidableEq

namespace Moment

instance : LE Moment := ⟨fun a b => a.date < b.date ∨ a.date = b.date ∧ a.time ≤ b.time⟩

instance : LT Moment := ⟨fun a b => a.date < b.date ∨ a.date = b.date ∧ a.time < b.time⟩

instance (a b : Moment) : Decidable (a ≤ b) :=
  inferInstanceAs (Decidable (a.date < b.date ∨ a.date = b.date ∧ a.time ≤ b.time))

instance (a b : Moment) : Decidable (a < b) :=
  inferInstanceAs (Decidable (a.date < b.date ∨ a.date = b.date ∧ a.time < b.time))

/-- The moment a whole number of seconds later, or earlier for a negative number, if the calendar
goes so far. Going forward, a leap second counts as the second it follows; going back, as the one
after it. -/
def addSeconds? (m : Moment) (seconds : Int) : Option Moment :=
  if seconds = 0 then some m
  else
    let start : Int := if m.time.isLeap ∧ seconds < 0 then m.time.second + 1 else m.time.second
    let total := start + seconds
    (m.date.addDays? (total / 86400)).map fun date =>
      { date
        time := ⟨(total % 86400).toNat, m.time.fraction,
          by simp only [secondsPerDay]; omega,
          Or.inl (Nat.mod_lt _ (by decide))⟩ }

end Moment

/-- The time from a start up to an end. The end itself does not belong to it. -/
structure TimeWindow where
  start : Moment
  stop : Moment
deriving DecidableEq

namespace TimeWindow

/-- The window between two times of one day. -/
def onDate (date : Date) (start stop : TimeOfDay) : TimeWindow := ⟨⟨date, start⟩, ⟨date, stop⟩⟩

/-- One window lies inside another, ends included. -/
def contains (outer inner : TimeWindow) : Bool :=
  outer.start ≤ inner.start && inner.stop ≤ outer.stop

end TimeWindow

end PrisonVisits
