import PrisonVisits.Booking.Visit

/-! Audits and records. An audit tells of one transition of a booking. A record saves or deletes one
whole row, or adds an audit; a commit is the list of records that one transition writes together. -/

namespace PrisonVisits

inductive AuditKind where
  | reservedVisit | changingVisit | amendedApplication | bookedVisit | cancelledVisit
  | discardedApplication
deriving DecidableEq

instance : Enumerated AuditKind where
  names := [("ReservedVisit", .reservedVisit), ("ChangingVisit", .changingVisit),
    ("AmendedApplication", .amendedApplication), ("BookedVisit", .bookedVisit),
    ("CancelledVisit", .cancelledVisit), ("DiscardedApplication", .discardedApplication)]

def AuditKind.label : AuditKind → String
  | reservedVisit => "reserved"
  | changingVisit => "changing"
  | amendedApplication => "amended"
  | bookedVisit => "booked"
  | cancelledVisit => "cancelled"
  | discardedApplication => "discarded"

structure EventAudit where
  bookingReference : Reference
  applicationReference : Option Reference
  sessionTemplateReference : Option Reference
  kind : AuditKind
  actionedBy : String
  recordedAt : Moment
deriving DecidableEq

inductive Record where
  | groupSaved (group : HierarchyGroup)
  | groupDeleted (reference : Reference)
  | templateSaved (template : SessionTemplate)
  | templateDeleted (reference : Reference)
  | applicationSaved (application : Application)
  | applicationDeleted (reference : Reference)
  | visitSaved (visit : Visit)
  | visitDeleted (id : UInt64)
  | audit (audit : EventAudit)
deriving DecidableEq

namespace Record

def label : Record → String
  | groupSaved _ => "group_saved"
  | groupDeleted _ => "group_deleted"
  | templateSaved _ => "template_saved"
  | templateDeleted _ => "template_deleted"
  | applicationSaved _ => "application_saved"
  | applicationDeleted _ => "application_deleted"
  | visitSaved _ => "visit_saved"
  | visitDeleted _ => "visit_deleted"
  | audit _ => "audit"

def audit? : Record → Option EventAudit
  | audit a => some a
  | _ => none

end Record

/-- The records of one transition, in the order in which they take effect. -/
abbrev Commit := List Record

end PrisonVisits
