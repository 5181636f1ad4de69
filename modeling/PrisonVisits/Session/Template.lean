import PrisonVisits.Calendar.Text
import PrisonVisits.Eligibility.Group
import PrisonVisits.Session.Schedule

/-! Session templates and their occurrences. A template says where, when and how often a prison
holds a visiting session, how many visits fit into it and which groups restrict it. On each of its
dates it gives one occurrence. -/

namespace PrisonVisits

/-- How a visit is held: in the open room or in a closed booth. -/
inductive VisitRestriction where
  | openVisit | closedVisit
deriving DecidableEq

instance : Enumerated VisitRestriction where
  names := [("Open", .openVisit), ("Closed", .closedVisit)]

/-- Visits that fit into a session, by restriction. -/
structure SessionCapacity where
  openSeats : UInt32
  closedSeats : UInt32
deriving DecidableEq

def SessionCapacity.seats (c : SessionCapacity) : VisitRestriction → UInt32
  | .openVisit => c.openSeats
  | .closedVisit => c.closedSeats

/-- What an administrator says about a template. -/
structure TemplateDraft where
  name : String
  prisonCode : String
  visitRoom : String
  dayOfWeek : Weekday
  startTime : TimeOfDay
  endTime : TimeOfDay
  validFrom : Date
  validTo : Option Date
  weeklyFrequency : UInt32
  capacity : SessionCapacity
  locationGroups : List Reference
  categoryGroups : List Reference
  incentiveGroups : List Reference
deriving DecidableEq

def TemplateDraft.groupReferences (d : TemplateDraft) : List Reference :=
  d.locationGroups ++ d.categoryGroups ++ d.incentiveGroups

structure SessionTemplate extends TemplateDraft where
  reference : Reference
  active : Bool
deriving DecidableEq

/-- A room of a prison on a day. -/
structure RoomDay where
  prisonCode : String
  visitRoom : String
  date : Date
deriving DecidableEq

namespace RoomDay

def text (r : RoomDay) : String := r.prisonCode ++ "/" ++ r.visitRoom ++ "/" ++ r.date.text

/-- Room days are ordered by prison, then room, then date. -/
def order : RoomDay → RoomDay → Ordering :=
  compareLex (compareOn prisonCode) (compareLex (compareOn visitRoom) (compareOn date))

instance : Ord RoomDay := ⟨order⟩

instance : Std.TransOrd RoomDay := inferInstanceAs
  (Std.TransCmp
    (compareLex (compareOn prisonCode) (compareLex (compareOn visitRoom) (compareOn date))))

instance : Std.LawfulEqOrd RoomDay where
  eq_of_compare {a b} h := by
    have h : order a b = .eq := h
    simp only [order, compareLex_eq_eq, compareOn] at h
    obtain ⟨hp, hr, hd⟩ := h
    cases a
    cases b
    cases Std.LawfulEqOrd.eq_of_compare hp
    cases Std.LawfulEqOrd.eq_of_compare hr
    cases Std.LawfulEqOrd.eq_of_compare hd
    rfl

end RoomDay

structure SessionOccurrence where
  templateReference : Reference
  prisonCode : String
  visitRoom : String
  date : Date
  window : TimeWindow
  capacity : SessionCapacity
deriving DecidableEq

def SessionOccurrence.roomDay (o : SessionOccurrence) : RoomDay :=
  ⟨o.prisonCode, o.visitRoom, o.date⟩

namespace SessionTemplate

def ofDraft (reference : Reference) (draft : TemplateDraft) (active : Bool) : SessionTemplate :=
  { toTemplateDraft := draft, reference, active }

def schedule (t : SessionTemplate) : Schedule :=
  ⟨t.dayOfWeek, t.validFrom, t.validTo, t.weeklyFrequency⟩

/-- The session that the template gives on a date. -/
def occurrence (t : SessionTemplate) (date : Date) : SessionOccurrence where
  templateReference := t.reference
  prisonCode := t.prisonCode
  visitRoom := t.visitRoom
  date
  window := .onDate date t.startTime t.endTime
  capacity := t.capacity

/-- The template's dates in a window. An inactive template has none. -/
def dates (t : SessionTemplate) (windowStart windowEnd : Date) : DateRun :=
  if t.active then t.schedule.datesBetween windowStart windowEnd else .empty

end SessionTemplate

end PrisonVisits
