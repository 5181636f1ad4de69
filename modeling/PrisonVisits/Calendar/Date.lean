import PrisonVisits.Calendar.Weekday

/-! Calendar dates. A date is the number of days since 1 January 1970, between the two ends of the
calendar, so order, distance and addition are those of the integers. Years, months and days are a
view of that number in the proleptic Gregorian calendar: counting the days of a civil date gives
back the number it was made from. -/

namespace PrisonVisits

/-- A year, a month and a day of the month, not yet known to be a date. -/
structure Civil where
  year : Int
  month : Nat
  day : Nat
deriving DecidableEq

namespace Civil

/-- The day number of 1 March of a year. Years that begin in March end with their leap day. -/
def marchFirst (year : Int) : Int := 365 * year + year / 4 - year / 100 + year / 400 - 719468

/-- The day of its March year on which a month begins, the month counted from March. -/
def monthStart (monthFromMarch : Nat) : Nat := (153 * monthFromMarch + 2) / 5

def dayNumber (c : Civil) : Int :=
  if c.month ≤ 2 then marchFirst (c.year - 1) + monthStart (c.month + 9) + c.day - 1
  else marchFirst c.year + monthStart (c.month - 3) + c.day - 1

/-- The year and the day of the year of a day in an era of 400 March years. The era is cut into
centuries of 36524 days, these into four-year cycles of 1461 days and these into years of 365 days;
the last part of each cut takes the odd day. -/
def yearAndDay (dayOfEra : Nat) : Nat × Nat :=
  let century := min (dayOfEra / 36524) 3
  let dayOfCentury := dayOfEra - 36524 * century
  let cycle := dayOfCentury / 1461
  let dayOfCycle := dayOfCentury - 1461 * cycle
  let year := min (dayOfCycle / 365) 3
  (100 * century + 4 * cycle + year, dayOfCycle - 365 * year)

/-- The civil date of a day of a March year. -/
def ofDayOfYear (year : Int) (dayOfYear : Nat) : Civil :=
  let monthFromMarch := (5 * dayOfYear + 2) / 153
  let day := dayOfYear - monthStart monthFromMarch + 1
  if monthFromMarch < 10 then ⟨year, monthFromMarch + 3, day⟩
  else ⟨year + 1, monthFromMarch - 9, day⟩

/-- The civil date of a day number. Each era of 400 years has 146097 days. -/
def ofDayNumber (n : Int) : Civil :=
  let (year, dayOfYear) := yearAndDay ((n + 719468) % 146097).toNat
  ofDayOfYear ((n + 719468) / 146097 * 400 + year) dayOfYear

theorem dayNumber_ofDayOfYear (year : Int) {t : Nat} (ht : t < 366) :
    (ofDayOfYear year t).dayNumber = marchFirst year + t := by
  simp only [ofDayOfYear]
  split
  · simp only [dayNumber, show ¬ (5 * t + 2) / 153 + 3 ≤ 2 by omega, if_false,
      Nat.add_sub_cancel, monthStart]
    omega
  · simp only [dayNumber, show (5 * t + 2) / 153 - 9 ≤ 2 by omega, if_true,
      Int.add_sub_cancel, show (5 * t + 2) / 153 - 9 + 9 = (5 * t + 2) / 153 by omega, monthStart]
    omega

/-- The cut of an era adds up: years of 365 days and the leap days before them. -/
theorem yearAndDay_sound {d : Nat} (hd : d < 146097) :
    d + (yearAndDay d).1 / 100 =
      365 * (yearAndDay d).1 + (yearAndDay d).1 / 4 + (yearAndDay d).2 ∧
    (yearAndDay d).1 < 400 ∧ (yearAndDay d).2 < 366 := by
  simp only [yearAndDay]
  generalize hc : min (d / 36524) 3 = c
  have hc3 : c ≤ 3 := by omega
  generalize hr : d - 36524 * c = r
  have hdr : d = 36524 * c + r := by omega
  have hr' : r < 36525 := by omega
  clear hc hr hd
  generalize hq : r / 1461 = q
  have hq24 : q ≤ 24 := by omega
  generalize hs : r - 1461 * q = s
  have hrs : r = 1461 * q + s := by omega
  have hs' : s < 1461 := by omega
  clear hq hs hr'
  generalize hy : min (s / 365) 3 = y
  have hy3 : y ≤ 3 := by omega
  generalize ht : s - 365 * y = t
  have hst : s = 365 * y + t := by omega
  have ht' : t < 366 := by omega
  clear hy ht hs'
  have h4 : (100 * c + 4 * q + y) / 4 = 25 * c + q := by omega
  have h100 : (100 * c + 4 * q + y) / 100 = c := by omega
  omega

theorem dayNumber_ofDayNumber (n : Int) : (ofDayNumber n).dayNumber = n := by
  have hd : ((n + 719468) % 146097).toNat < 146097 := by omega
  have hn : n + 719468 =
      (n + 719468) / 146097 * 146097 + (((n + 719468) % 146097).toNat : Int) := by omega
  simp only [ofDayNumber]
  revert hd hn
  generalize (n + 719468) / 146097 = era
  generalize ((n + 719468) % 146097).toNat = d
  intro hd hn
  obtain ⟨hsum, hy, ht⟩ := yearAndDay_sound hd
  rw [dayNumber_ofDayOfYear _ ht, marchFirst]
  generalize (yearAndDay d).1 = y at *
  generalize (yearAndDay d).2 = t at *
  have h4 : (era * 400 + (y : Int)) / 4 = era * 100 + ((y / 4 : Nat) : Int) := by omega
  have h100 : (era * 400 + (y : Int)) / 100 = era * 4 + ((y / 100 : Nat) : Int) := by omega
  have h400 : (era * 400 + (y : Int)) / 400 = era := by omega
  rw [h4, h100, h400]
  omega

end Civil

namespace Date

/-- The day number of 1 January −262143. -/
def firstDay : Int := -96465292

/-- The day number of 31 December 262142. -/
def lastDay : Int := 95026236

end Date

/-- A date between the two ends of the calendar. -/
structure Date where
  dayNumber : Int
  first_le : Date.firstDay ≤ dayNumber
  le_last : dayNumber ≤ Date.lastDay
deriving DecidableEq

namespace Date

theorem ext_dayNumber {a b : Date} (h : a.dayNumber = b.dayNumber) : a = b := by
  cases a; cases b; cases h; rfl

instance : LE Date := ⟨fun a b => a.dayNumber ≤ b.dayNumber⟩

instance : LT Date := ⟨fun a b => a.dayNumber < b.dayNumber⟩

instance (a b : Date) : Decidable (a ≤ b) := inferInstanceAs (Decidable (a.dayNumber ≤ b.dayNumber))

instance (a b : Date) : Decidable (a < b) := inferInstanceAs (Decidable (a.dayNumber < b.dayNumber))

instance : Min Date := ⟨fun a b => if a ≤ b then a else b⟩

instance : Max Date := ⟨fun a b => if a ≤ b then b else a⟩

instance : Ord Date := ⟨compareOn dayNumber⟩

instance : Std.TransOrd Date := inferInstanceAs (Std.TransCmp (compareOn dayNumber))

instance : Std.LawfulEqOrd Date where
  eq_of_compare h := ext_dayNumber (Std.LawfulEqOrd.eq_of_compare (α := Int) h)

/-- The first and the last day of the calendar. -/
def first : Date := ⟨firstDay, by decide, by decide⟩

def last : Date := ⟨lastDay, by decide, by decide⟩

/-- The date of a day number, if the calendar has it. -/
def ofDayNumber? (n : Int) : Option Date :=
  if h : firstDay ≤ n ∧ n ≤ lastDay then some ⟨n, h.1, h.2⟩ else none

/-- The date some days later, if the calendar goes so far. -/
def addDays? (d : Date) (days : Int) : Option Date := ofDayNumber? (d.dayNumber + days)

/-- Days from the first date to the second. -/
def daysUntil (a b : Date) : Int := b.dayNumber - a.dayNumber

/-- 1 January 1970 was a Thursday. -/
def weekday (d : Date) : Weekday := Weekday.ofIndex ((d.dayNumber + 3) % 7).toNat

def civil (d : Date) : Civil := Civil.ofDayNumber d.dayNumber

/-- The date of a civil date. A day that its month does not have is no date: counting it leads to
another month. -/
def ofCivil? (c : Civil) : Option Date :=
  (ofDayNumber? c.dayNumber).filter fun d => d.civil = c

theorem ofDayNumber?_dayNumber (d : Date) : ofDayNumber? d.dayNumber = some d := by
  simp [ofDayNumber?, d.first_le, d.le_last]

/-- Reading a date's own year, month and day gives the date. -/
theorem ofCivil?_civil (d : Date) : ofCivil? d.civil = some d := by
  simp [ofCivil?, civil, Civil.dayNumber_ofDayNumber, ofDayNumber?_dayNumber]

end Date

end PrisonVisits
