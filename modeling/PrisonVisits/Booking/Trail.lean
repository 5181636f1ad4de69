import PrisonVisits.Booking.Record

/-! The order of an audit trail. Audits are listed as they were recorded, with one exception:
discards that the system makes at one moment come out of a single sweep, which has no order of its
own, so a run of them is listed by booking and application. -/

namespace PrisonVisits

namespace EventAudit

/-- The audit comes from a sweep of expired applications. -/
def isSwept (a : EventAudit) : Bool := a.kind == .discardedApplication && a.actionedBy == "system"

def sameSweep (a b : EventAudit) : Bool := a.isSwept && b.isSwept && a.recordedAt == b.recordedAt

/-- Bookings first, then applications; an audit without one comes before the others. -/
def precedes (a b : EventAudit) : Bool :=
  ((compare a.bookingReference b.bookingReference).then
    (compare a.applicationReference.toList b.applicationReference.toList)).isLE

end EventAudit

/-- The audits with the runs of each sweep sorted. -/
def trail (audits : List EventAudit) : List EventAudit :=
  (audits.splitBy EventAudit.sameSweep).flatMap fun run => run.mergeSort EventAudit.precedes

/-- A commit of audits is listed as a trail; in any other the order says what happened first. -/
def trailCommit (commit : Commit) : Commit :=
  let audits := commit.filterMap Record.audit?
  if audits.length = commit.length then (trail audits).map .audit else commit

end PrisonVisits
