import PrisonVisits.Booking.Visit

/-! Seats taken in a session. A visit counts if it lies in the session's room and inside its window,
whatever template it was made from. The reading count leaves out drafts of changes, since their
bookings already hold a seat; the count for a reservation takes every visit that is not cancelled,
but none of the booking that asks. -/

namespace PrisonVisits

/-- Visits counted by restriction. For counts of 32 bits this holds as long as a room has fewer than
2 ^ 32 visits on a day. -/
structure SessionLoad where
  openTaken : Nat
  closedTaken : Nat
deriving DecidableEq

namespace SessionLoad

def taken (l : SessionLoad) : VisitRestriction → Nat
  | .openVisit => l.openTaken
  | .closedVisit => l.closedTaken

/-- The visits of each restriction. -/
def ofVisits (visits : List Visit) : SessionLoad where
  openTaken := visits.countP fun v => v.restriction == .openVisit
  closedTaken := visits.countP fun v => v.restriction == .closedVisit

end SessionLoad

namespace SessionOccurrence

/-- The visit lies in the session's room and window. -/
def holds (o : SessionOccurrence) (v : Visit) : Bool :=
  v.prisonCode == o.prisonCode && v.visitRoom == o.visitRoom && o.window.contains v.window

/-- Reserved and booked visits of the session. -/
def load (o : SessionOccurrence) (visits : List Visit) : SessionLoad :=
  .ofVisits (visits.filter fun v => (v.status == .reserved || v.status == .booked) && o.holds v)

/-- Visits that stand in the way of a booking, which never competes with itself. -/
def loadWithHolds (o : SessionOccurrence) (visits : List Visit) (asking : Option Reference) :
    SessionLoad :=
  .ofVisits (visits.filter fun v =>
    !v.isCancelled && o.holds v && asking != some v.reference)

/-- Seats left. An overfull session has none. -/
def remaining (o : SessionOccurrence) (l : SessionLoad) (r : VisitRestriction) : Nat :=
  (o.capacity.seats r).toNat - l.taken r

end SessionOccurrence

end PrisonVisits
