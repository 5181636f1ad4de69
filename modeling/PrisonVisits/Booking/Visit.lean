import PrisonVisits.Session.Template

/-! Visits and applications. An application holds a slot while a booking is being made or changed;
its visit is the draft of what will be booked. Rows of one booking share their booking reference. -/

namespace PrisonVisits

inductive VisitStatus where
  /-- The draft of a new booking. -/
  | reserved
  /-- The draft of a change to a booked visit. -/
  | changing
  | booked
  | cancelled
deriving DecidableEq

instance : Enumerated VisitStatus where
  names := [("Reserved", .reserved), ("Changing", .changing), ("Booked", .booked),
    ("Cancelled", .cancelled)]

/-- Why a visit was cancelled. -/
inductive Outcome where
  | supersededCancellation | administrativeCancellation | establishmentCancelled
  | prisonerCancelled | visitorCancelled | bookerCancelled
deriving DecidableEq

instance : Enumerated Outcome where
  names := [("SupersededCancellation", .supersededCancellation),
    ("AdministrativeCancellation", .administrativeCancellation),
    ("EstablishmentCancelled", .establishmentCancelled),
    ("PrisonerCancelled", .prisonerCancelled), ("VisitorCancelled", .visitorCancelled),
    ("BookerCancelled", .bookerCancelled)]

structure ContactDetails where
  name : String
  telephone : Option String
deriving DecidableEq

structure Visitor where
  nomisPersonId : Int64
  visitContact : Bool
deriving DecidableEq

/-- A request for support as it was made; its code is looked at when the visit is booked. -/
structure VisitorSupport where
  code : String
  text : Option String
deriving DecidableEq

inductive NoteKind where
  | visitCancellation | visitComment
deriving DecidableEq

instance : Enumerated NoteKind where
  names := [("VisitCancellation", .visitCancellation), ("VisitComment", .visitComment)]

structure VisitNote where
  kind : NoteKind
  text : String
deriving DecidableEq

inductive ApplicationKind where
  /-- For a new booking, or for one that has no live visit any more. -/
  | reserve
  /-- For a change to a booked visit. -/
  | change
deriving DecidableEq

instance : Enumerated ApplicationKind where
  names := [("Reserve", .reserve), ("Change", .change)]

structure Application where
  reference : Reference
  bookingReference : Reference
  kind : ApplicationKind
  prisonCode : String
  prisonerId : String
  sessionTemplateReference : Reference
  sessionDate : Date
  restriction : VisitRestriction
  contact : Option ContactDetails
  visitors : List Visitor
  support : List VisitorSupport
  completed : Bool
  createdBy : String
  createdAt : Moment
  modifiedAt : Moment
deriving DecidableEq

structure Visit where
  /-- Ids follow the order in which visits were made. -/
  id : UInt64
  /-- The booking reference. -/
  reference : Reference
  applicationReference : Reference
  prisonCode : String
  prisonerId : String
  sessionTemplateReference : Reference
  visitRoom : String
  window : TimeWindow
  restriction : VisitRestriction
  status : VisitStatus
  outcome : Option Outcome
  contact : Option ContactDetails
  visitors : List Visitor
  support : List VisitorSupport
  notes : List VisitNote
  createdAt : Moment
  modifiedAt : Moment
deriving DecidableEq

namespace Visit

def date (v : Visit) : Date := v.window.start.date

def roomDay (v : Visit) : RoomDay := ⟨v.prisonCode, v.visitRoom, v.date⟩

def isDraft (v : Visit) : Bool := v.status == .reserved || v.status == .changing

def isBooked (v : Visit) : Bool := v.status == .booked

def isCancelled (v : Visit) : Bool := v.status == .cancelled

end Visit

end PrisonVisits
