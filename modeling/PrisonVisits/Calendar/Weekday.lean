/-! The days of the week, Monday first. -/

namespace PrisonVisits

inductive Weekday where
  | monday | tuesday | wednesday | thursday | friday | saturday | sunday
deriving DecidableEq

namespace Weekday

/-- Monday is zero. -/
def index : Weekday → Nat
  | monday => 0
  | tuesday => 1
  | wednesday => 2
  | thursday => 3
  | friday => 4
  | saturday => 5
  | sunday => 6

def all : List Weekday := [monday, tuesday, wednesday, thursday, friday, saturday, sunday]

/-- The weekday a number of days after a Monday. -/
def ofIndex (n : Nat) : Weekday :=
  match n % 7 with
  | 0 => monday
  | 1 => tuesday
  | 2 => wednesday
  | 3 => thursday
  | 4 => friday
  | 5 => saturday
  | _ => sunday

theorem index_lt (w : Weekday) : w.index < 7 := by cases w <;> decide

theorem ofIndex_index (w : Weekday) : ofIndex w.index = w := by cases w <;> rfl

theorem mem_all (w : Weekday) : w ∈ all := by cases w <;> decide

/-- The English name, in lower case. -/
def name : Weekday → String
  | monday => "monday"
  | tuesday => "tuesday"
  | wednesday => "wednesday"
  | thursday => "thursday"
  | friday => "friday"
  | saturday => "saturday"
  | sunday => "sunday"

/-- The written form has three letters and a capital. -/
def text : Weekday → String
  | monday => "Mon"
  | tuesday => "Tue"
  | wednesday => "Wed"
  | thursday => "Thu"
  | friday => "Fri"
  | saturday => "Sat"
  | sunday => "Sun"

/-- Reads the full English name or its first three letters, in any mix of cases. -/
def ofText? (s : String) : Option Weekday :=
  let cs := s.toList.map Char.toLower
  all.find? fun w => cs == w.name.toList || cs == w.name.toList.take 3

end Weekday

end PrisonVisits
