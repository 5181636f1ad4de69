import PrisonVisits.Calendar.Moment
import PrisonVisits.Text.Numeral

/-! The written forms of dates, times and moments, and their readers. A year has four digits from 0
to 9999, otherwise a sign and at least four. A fraction of a second has three, six or nine digits,
the fewest that show it exactly. Readers are wider than the written form: numerals may be shorter,
white space may stand around them, and further digits of a fraction are dropped. -/

namespace PrisonVisits

open Text

namespace Date

def yearText (year : Int) : List Char :=
  if year < 0 then '-' :: padded 4 year.natAbs
  else if 9999 < year then '+' :: padded 4 year.natAbs
  else padded 4 year.natAbs

def chars (d : Date) : List Char :=
  yearText d.civil.year ++ '-' :: padded 2 d.civil.month ++ '-' :: padded 2 d.civil.day

def text (d : Date) : String := String.ofList d.chars

/-- Reads a year: up to four digits, or a sign and any number of digits. -/
def readYear (cs : List Char) : Option (Int × List Char) :=
  match cs with
  | '-' :: rest => (readNumeral rest.length rest).map fun (n, rest) => (-(n : Int), rest)
  | '+' :: rest => (readNumeral rest.length rest).map fun (n, rest) => ((n : Int), rest)
  | _ => (readNumeral 4 cs).map fun (n, rest) => ((n : Int), rest)

/-- Reads year, month and day with hyphens between them. -/
def readCivil (cs : List Char) : Option (Civil × List Char) := do
  let (year, cs) ← readYear (skipSpace cs)
  let cs ← readChar '-' (skipSpace cs)
  let (month, cs) ← readNumeral 2 (skipSpace cs)
  let cs ← readChar '-' (skipSpace cs)
  let (day, cs) ← readNumeral 2 (skipSpace cs)
  return (⟨year, month, day⟩, skipSpace cs)

def ofChars? (cs : List Char) : Option Date := do
  let (civil, rest) ← readCivil cs
  if rest.isEmpty then ofCivil? civil else none

def ofText? (s : String) : Option Date := ofChars? s.toList

end Date

namespace TimeOfDay

/-- Nothing for a whole second, otherwise a point and the fewest groups of three digits. -/
def fractionText (nano : Nat) : List Char :=
  if nano = 0 then []
  else if nano % 1000000 = 0 then '.' :: padded 3 (nano / 1000000)
  else if nano % 1000 = 0 then '.' :: padded 6 (nano / 1000)
  else '.' :: padded 9 nano

def chars (t : TimeOfDay) : List Char :=
  padded 2 t.hour ++ ':' :: padded 2 t.minute ++ ':' :: padded 2 t.secondOfMinute ++
    fractionText t.fraction

def text (t : TimeOfDay) : String := String.ofList t.chars

/-- Reads a fraction if a point stands there: nine digits count, those behind them are dropped. -/
def readFraction : List Char → Option (Nat × List Char)
  | '.' :: cs =>
    (readNumeral 9 cs).map fun (n, rest) =>
      (n * Nat.pow 10 (9 - (cs.length - rest.length)), rest.dropWhile Char.isDigit)
  | cs => some (0, cs)

/-- Reads the seconds of a time, with their colon in front. -/
def readSeconds (cs : List Char) : Option (Nat × Nat × List Char) := do
  let cs ← readChar ':' (skipSpace cs)
  let (second, cs) ← readNumeral 2 (skipSpace cs)
  let (nano, cs) ← readFraction cs
  return (second, nano, skipSpace cs)

def readHourMinute (cs : List Char) : Option (Nat × Nat × List Char) := do
  let (hour, cs) ← readNumeral 2 (skipSpace cs)
  let cs ← readChar ':' (skipSpace cs)
  let (minute, cs) ← readNumeral 2 (skipSpace cs)
  return (hour, minute, cs)

/-- Reads a time of day. The seconds may be left out. -/
def ofChars? (cs : List Char) : Option TimeOfDay := do
  let (hour, minute, cs) ← readHourMinute cs
  let (second, nano, rest) := (readSeconds cs).getD (0, 0, skipSpace cs)
  if rest.isEmpty then ofParts? hour minute second nano else none

def ofText? (s : String) : Option TimeOfDay := ofChars? s.toList

end TimeOfDay

namespace Moment

def chars (m : Moment) : List Char := m.date.chars ++ 'T' :: m.time.chars

def text (m : Moment) : String := String.ofList m.chars

/-- Reads a date, a capital T and a time with its seconds. -/
def ofChars? (cs : List Char) : Option Moment := do
  let (civil, cs) ← Date.readCivil cs
  let cs ← readChar 'T' cs
  let (hour, minute, cs) ← TimeOfDay.readHourMinute cs
  let (second, nano, rest) ← TimeOfDay.readSeconds cs
  let date ← Date.ofCivil? civil
  let time ← TimeOfDay.ofParts? hour minute second nano
  if rest.isEmpty then some ⟨date, time⟩ else none

def ofText? (s : String) : Option Moment := ofChars? s.toList

end Moment

end PrisonVisits
