import PrisonVisits.Booking.Load
import PrisonVisits.Desk.Catalogue

/-! The life of a booking. Reserving or changing puts an application and its draft visit in place,
which hold a seat; amending moves them; booking makes the draft the booked visit and cancels the one
it replaces, in that order within one commit; cancelling ends the whole booking, with every draft
that hangs on it. Applications left alone for too long are discarded. -/

namespace PrisonVisits

open Text

/-- A session on a date, asked for under a restriction. -/
structure Slot where
  template : Reference
  date : Date
  restriction : VisitRestriction
deriving DecidableEq

/-- Starts a booking, or books an existing one again. -/
structure ReserveRequest where
  prisonerId : String
  slot : Slot
  contact : Option ContactDetails
  visitors : List Visitor
  support : List VisitorSupport
  /-- The booking to book again; without it a new one is made. -/
  bookingReference : Option Reference
  actionedBy : String

/-- Drafts a change to a booked visit, which stays in place until the change is booked. -/
structure ChangeRequest where
  bookingReference : Reference
  slot : Slot
  contact : Option ContactDetails
  visitors : List Visitor
  support : List VisitorSupport
  actionedBy : String

namespace ReserveRequest

/-- The application that the reservation makes in a session. -/
def application (r : ReserveRequest) (reference bookingReference : Reference)
    (o : SessionOccurrence) (now : Moment) : Application where
  reference
  bookingReference
  kind := .reserve
  prisonCode := o.prisonCode
  prisonerId := r.prisonerId
  sessionTemplateReference := o.templateReference
  sessionDate := o.date
  restriction := r.slot.restriction
  contact := r.contact
  visitors := r.visitors
  support := r.support
  completed := false
  createdBy := r.actionedBy
  createdAt := now
  modifiedAt := now

end ReserveRequest

namespace ChangeRequest

/-- The application that changes a booked visit to a session. -/
def application (r : ChangeRequest) (reference : Reference) (booked : Visit)
    (o : SessionOccurrence) (now : Moment) : Application where
  reference
  bookingReference := r.bookingReference
  kind := .change
  prisonCode := o.prisonCode
  prisonerId := booked.prisonerId
  sessionTemplateReference := o.templateReference
  sessionDate := o.date
  restriction := r.slot.restriction
  contact := r.contact
  visitors := r.visitors
  support := r.support
  completed := false
  createdBy := r.actionedBy
  createdAt := now
  modifiedAt := now

end ChangeRequest

/-- New values for an incomplete application; what is absent stays. -/
structure Amendment where
  template : Option Reference
  date : Option Date
  restriction : Option VisitRestriction
  contact : Option ContactDetails
  visitors : Option (List Visitor)
  support : Option (List VisitorSupport)
  actionedBy : String

/-- The application with the people that an amendment names. -/
def Amendment.people (m : Amendment) (a : Application) : Application :=
  { a with
    visitors := m.visitors.getD a.visitors
    support := m.support.getD a.support
    contact := m.contact <|> a.contact }

/-- The application after an amendment at a moment. -/
def Application.touched (a : Application) (now : Moment) : Application :=
  { a with modifiedAt := now }

/-- The visit with the people of its application. -/
def Application.bring (a : Application) (v : Visit) (now : Moment) : Visit :=
  { v with
    contact := a.contact
    visitors := a.visitors
    support := a.support
    modifiedAt := now }

/-- The booked visit that the draft becomes. -/
def Application.booked (a : Application) (draft : Visit) (now : Moment) : Visit :=
  { a.bring draft now with status := .booked }

/-- The application once its draft is booked. -/
def Application.complete (a : Application) (now : Moment) : Application :=
  { a with completed := true, modifiedAt := now }

structure Cancellation where
  outcome : Outcome
  text : Option String
  actionedBy : String

/-- The limits on visitors and support, checked whenever they are supplied. -/
def checkCounts (visitors : List Visitor) (support : List VisitorSupport) :
    Except Refusal Unit := do
  require (visitors.length ≤ Limits.maxVisitorsPerVisit) (.limitExceeded .tooManyVisitors)
  require (support.length ≤ Limits.maxSupportPerVisit) (.limitExceeded .tooManySupport)
  require (support.all fun s => byteLength (s.text.getD "") ≤ Limits.maxTextLength)
    (.limitExceeded .supportTextTooLong)

/-- A support request that may be booked: its code is known, and OTHER says what is needed. -/
def VisitorSupport.check (s : VisitorSupport) : Except Refusal Unit :=
  match (Vocabulary.ofCode? s.code : Option SupportType) with
  | none => .error (.validation (.unknownSupport s.code))
  | some kind =>
    require (kind != .other || !isBlank (s.text.getD "")) (.validation .supportUndescribed)

namespace ApplicationKind

/-- The status of the draft. -/
def draftStatus : ApplicationKind → VisitStatus
  | reserve => .reserved
  | change => .changing

/-- What the audit says when the application is made. -/
def startAudit : ApplicationKind → AuditKind
  | reserve => .reservedVisit
  | change => .changingVisit

end ApplicationKind

namespace Application

/-- What an application must have before it is booked. -/
def checkBookable (a : Application) : Except Refusal Unit := do
  checkCounts a.visitors a.support
  require (!a.visitors.isEmpty) (.validation .noVisitor)
  let contacts := a.visitors.countP (·.visitContact)
  require (contacts ≤ 1) (.validation (.severalContacts contacts))
  a.support.forM VisitorSupport.check

/-- The audit of a step that the application takes. -/
def audit (a : Application) (kind : AuditKind) (actionedBy : String) (now : Moment) : Record :=
  .audit {
    bookingReference := a.bookingReference
    applicationReference := some a.reference
    sessionTemplateReference := some a.sessionTemplateReference
    kind
    actionedBy
    recordedAt := now }

/-- The records that remove an incomplete application and its draft. -/
def discardRecords (a : Application) (draft : Option Visit) (actionedBy : String) (now : Moment) :
    Commit :=
  .applicationDeleted a.reference ::
    ((draft.filter Visit.isDraft).toList.map fun v => .visitDeleted v.id) ++
    [a.audit .discardedApplication actionedBy now]

/-- The draft visit of a new application. -/
def draftVisit (a : Application) (id : UInt64) (o : SessionOccurrence) (now : Moment) : Visit where
  id
  reference := a.bookingReference
  applicationReference := a.reference
  prisonCode := o.prisonCode
  prisonerId := a.prisonerId
  sessionTemplateReference := o.templateReference
  visitRoom := o.visitRoom
  window := o.window
  restriction := a.restriction
  status := a.kind.draftStatus
  outcome := none
  contact := a.contact
  visitors := a.visitors
  support := a.support
  notes := []
  createdAt := now
  modifiedAt := now

/-- The audit of the step that makes the draft the booked visit. -/
def bookedAudit (a : Application) (booked : Visit) (actionedBy : String) (now : Moment) : Record :=
  .audit {
    bookingReference := a.bookingReference
    applicationReference := some a.reference
    sessionTemplateReference := some booked.sessionTemplateReference
    kind := .bookedVisit
    actionedBy
    recordedAt := now }

end Application

/-- The audit of a visit that is cancelled. -/
def Visit.cancelledAudit (v : Visit) (actionedBy : String) (now : Moment) : Record :=
  .audit {
    bookingReference := v.reference
    applicationReference := some v.applicationReference
    sessionTemplateReference := some v.sessionTemplateReference
    kind := .cancelledVisit
    actionedBy
    recordedAt := now }

namespace Store

def getApplication (s : Store) (reference : Reference) : Except Refusal Application :=
  found .application reference (s.application? reference)

/-- The draft of an application. -/
def draft? (s : Store) (application : Reference) : Option Visit :=
  (s.visitForApplication? application).filter Visit.isDraft

def getDraft (s : Store) (application : Reference) : Except Refusal Visit :=
  found .visit application (s.draft? application)

end Store

namespace Desk

/-- The prisoner is held where the template's sessions are. -/
def checkHeldThere (context : PrisonerContext) (prisonerId : String) (t : SessionTemplate) :
    Except Refusal Unit :=
  require (t.prisonCode == context.prisonCode)
    (.validation (.heldElsewhere prisonerId context.prisonCode t.prisonCode))

/-- The groups of the template allow the prisoner. -/
def checkEligible (d : Desk) (context : PrisonerContext) (prisonerId : String)
    (t : SessionTemplate) : Except Refusal Unit := do
  let eligibility ← d.store.eligibilityOf t
  let dimensions := eligibility.refusing context
  require dimensions.isEmpty (.notEligible prisonerId dimensions)

/-- The session that a prisoner may take under a booking reference. Its seats are counted last, and
without those that the booking holds itself. -/
def holdSlot (d : Desk) (prisonerId : String) (slot : Slot) (bookingReference : Reference) :
    Except Refusal SessionOccurrence := do
  let context ← d.prisoner prisonerId
  let template ← d.store.getTemplate slot.template
  require template.active (.validation (.templateInactive template.reference))
  checkHeldThere context prisonerId template
  require (template.schedule.firesOn slot.date)
    (.validation (.notOnDate template.reference slot.date))
  let (earliest, latest) ← d.bookingWindow
  require (earliest ≤ slot.date && slot.date ≤ latest)
    (.validation (.outsideWindow slot.date earliest latest))
  d.checkEligible context prisonerId template
  let occurrence := template.occurrence slot.date
  let load := occurrence.loadWithHolds (d.store.visitsInRoomDay occurrence.roomDay)
    (some bookingReference)
  let seats := occurrence.capacity.seats slot.restriction
  require (load.taken slot.restriction < seats.toNat) (.capacityExceeded slot.restriction seats)
  return occurrence

/-- The booking that a reservation belongs to: the prisoner's own, or a new one. -/
def bookingFor (d : Desk) (r : ReserveRequest) : Plan Reference :=
  match r.bookingReference with
  | none => d.store.freshReference
  | some reference => do
    let first ← found .visit reference (d.store.visitsForReference reference).head?
    require (first.prisonerId == r.prisonerId) (.validation (.otherPrisoner reference))
    return reference

/-- A new application for a session and its draft, under the next visit id. -/
def start (d : Desk) (a : Application) (o : SessionOccurrence) : Transition Application where
  answer := a
  records := [.applicationSaved a, .visitSaved (a.draftVisit d.store.nextVisitId o d.now),
    a.audit a.kind.startAudit a.createdBy d.now]
  takesVisitId := true

def planReserve (d : Desk) (r : ReserveRequest) : Plan (Transition Application) := do
  checkCounts r.visitors r.support
  let bookingReference ← d.bookingFor r
  let occurrence ← d.holdSlot r.prisonerId r.slot bookingReference
  let reference ← d.store.freshReference
  return d.start (r.application reference bookingReference occurrence d.now) occurrence

/-- The visit that a change would replace. -/
def bookedForChange (d : Desk) (bookingReference : Reference) : Except Refusal Visit :=
  match d.store.bookedVisit? bookingReference with
  | some booked => .ok booked
  | none =>
    if (d.store.visitsForReference bookingReference).isEmpty then
      .error (.notFound .visit bookingReference)
    else .error (.state (.nothingToChange bookingReference))

def planChange (d : Desk) (r : ChangeRequest) : Plan (Transition Application) := do
  checkCounts r.visitors r.support
  let booked ← d.bookedForChange r.bookingReference
  let occurrence ← d.holdSlot booked.prisonerId r.slot r.bookingReference
  let reference ← d.store.freshReference
  return d.start (r.application reference booked occurrence d.now) occurrence

/-- The slot that an application would have after an amendment. -/
def amendedSlot (a : Application) (m : Amendment) : Slot where
  template := m.template.getD a.sessionTemplateReference
  date := m.date.getD a.sessionDate
  restriction := m.restriction.getD a.restriction

/-- The application and its draft in the slot asked for. A slot that stays is not checked again. -/
def placeAmended (d : Desk) (a : Application) (draft : Visit) (slot : Slot) :
    Except Refusal (Application × Visit) :=
  if slot = ⟨a.sessionTemplateReference, a.sessionDate, a.restriction⟩ then .ok (a, draft)
  else do
    let occurrence ← d.holdSlot a.prisonerId slot a.bookingReference
    return (
      { a with
        sessionTemplateReference := occurrence.templateReference
        sessionDate := occurrence.date
        restriction := slot.restriction },
      { draft with
        sessionTemplateReference := occurrence.templateReference
        visitRoom := occurrence.visitRoom
        window := occurrence.window
        restriction := slot.restriction })

def planAmend (d : Desk) (reference : Reference) (m : Amendment) :
    Except Refusal (Transition Application) := do
  let existing ← d.store.getApplication reference
  require (!existing.completed) (.state (.alreadyCompleted reference))
  let draft ← d.store.getDraft reference
  let wanted := m.people existing
  checkCounts wanted.visitors wanted.support
  let (placed, moved) ← d.placeAmended wanted draft (amendedSlot existing m)
  let application := placed.touched d.now
  return .of application [.applicationSaved application,
    .visitSaved (application.bring moved d.now),
    application.audit .amendedApplication m.actionedBy d.now]

/-- When a draft is booked, its session must still run and still admit the prisoner. -/
def confirmStillApplies (d : Desk) (a : Application) : Except Refusal Unit := do
  let template ← d.store.getTemplate a.sessionTemplateReference
  require template.active (.validation (.templateInactive template.reference))
  let context ← d.prisoner a.prisonerId
  checkHeldThere context a.prisonerId template
  d.checkEligible context a.prisonerId template

/-- A booked visit when another one has taken its place. -/
def superseded (old : Visit) (now : Moment) : Visit :=
  { old with
    status := .cancelled
    outcome := some .supersededCancellation
    modifiedAt := now }

def supersedeRecords (old : Visit) (actionedBy : String) (now : Moment) : Commit :=
  [.visitSaved (superseded old now), (superseded old now).cancelledAudit actionedBy now]

def planBook (d : Desk) (reference : Reference) (actionedBy : String) :
    Except Refusal (Transition Visit) := do
  let existing ← d.store.getApplication reference
  require (!existing.completed) (.state (.alreadyBooked reference))
  existing.checkBookable
  let draft ← d.store.getDraft reference
  let old := d.store.bookedVisit? existing.bookingReference
  require (existing.kind != .change || old.isSome)
    (.state (.nothingLeftToChange existing.bookingReference))
  d.confirmStillApplies existing
  let visit := existing.booked draft d.now
  return .of visit
    (old.toList.flatMap (supersedeRecords · actionedBy d.now) ++ [.visitSaved visit,
      .applicationSaved (existing.complete d.now), existing.bookedAudit visit actionedBy d.now])

/-- The visit of a booking that a cancellation ends: the booked one, else the latest draft. -/
def cancellationTarget (rows : List Visit) : Option Visit :=
  rows.find? Visit.isBooked <|> (rows.filter Visit.isDraft).getLast?

/-- The records that remove a draft along with the booking it belongs to. -/
def discardPending (d : Desk) (pending : Visit) (actionedBy : String) : Commit :=
  match (d.store.application? pending.applicationReference).filter fun a => !a.completed with
  | some application => application.discardRecords (some pending) actionedBy d.now
  | none => [.visitDeleted pending.id]

/-- The visit as a cancellation leaves it. -/
def cancelledTarget (d : Desk) (target : Visit) (c : Cancellation) : Visit :=
  { target with
    status := .cancelled
    outcome := some c.outcome
    notes := target.notes ++ c.text.toList.map (⟨.visitCancellation, ·⟩)
    modifiedAt := d.now }

/-- The records that cancel a visit of a booking and remove the booking's other drafts. -/
def cancelRecords (d : Desk) (rows : List Visit) (target : Visit) (c : Cancellation) : Commit :=
  let visit := d.cancelledTarget target c
  let application : Commit :=
    if target.isDraft && (d.store.application? target.applicationReference).isSome then
      [.applicationDeleted target.applicationReference]
    else []
  let pending := rows.filter fun v => v.isDraft && v.id != target.id
  .visitSaved visit :: application ++ visit.cancelledAudit c.actionedBy d.now ::
    pending.flatMap fun v => d.discardPending v c.actionedBy

/-- A booking nobody knows has nothing to cancel, one without a live visit stays as it is. -/
def planCancel (d : Desk) (bookingReference : Reference) (c : Cancellation) :
    Except Refusal (Transition (Option Visit)) := do
  require (c.outcome != .supersededCancellation) (.validation .supersededByHand)
  require (byteLength (c.text.getD "") ≤ Limits.maxTextLength)
    (.limitExceeded .cancellationTextTooLong)
  let rows := d.store.visitsForReference bookingReference
  match cancellationTarget rows with
  | none => return .nothing rows.getLast?
  | some target =>
    return .of (some (d.cancelledTarget target c)) (d.cancelRecords rows target c)

def planDiscard (d : Desk) (reference : Reference) (actionedBy : String) :
    Except Refusal (Transition Unit) := do
  let application ← d.store.getApplication reference
  require (!application.completed) (.state (.alreadyBooked reference))
  return .of ()
    (application.discardRecords (d.store.visitForApplication? reference) actionedBy d.now)

def reserve (d : Desk) (r : ReserveRequest) : Except Refusal Application × Desk :=
  d.transact (d.planReserve r)

def change (d : Desk) (r : ChangeRequest) : Except Refusal Application × Desk :=
  d.transact (d.planChange r)

def amend (d : Desk) (application : Reference) (m : Amendment) :
    Except Refusal Application × Desk :=
  d.transact (liftM (d.planAmend application m))

def book (d : Desk) (application : Reference) (actionedBy : String) : Except Refusal Visit × Desk :=
  d.transact (liftM (d.planBook application actionedBy))

def cancel (d : Desk) (bookingReference : Reference) (c : Cancellation) :
    Except Refusal (Option Visit) × Desk :=
  d.transact (liftM (d.planCancel bookingReference c))

def discard (d : Desk) (application : Reference) (actionedBy : String) :
    Except Refusal Unit × Desk :=
  d.transact (liftM (d.planDiscard application actionedBy))

/-- Incomplete applications last touched before this moment have expired. A count back past the
start of the calendar comes to nothing, and none has. -/
def expiryCutoff (d : Desk) : Option Moment := d.now.addSeconds? (-d.policy.applicationTtlSeconds)

def expiredApplications (d : Desk) : List Application :=
  match d.expiryCutoff with
  | some cutoff => d.store.staleApplications cutoff
  | none => []

/-- What discards an application if it has expired. -/
def expiryRecords (d : Desk) (reference : Reference) : Commit :=
  match d.expiryCutoff, d.store.application? reference with
  | some cutoff, some a =>
    if a.completed || cutoff ≤ a.modifiedAt then []
    else a.discardRecords (d.store.visitForApplication? reference) "system" d.now
  | _, _ => []

/-- Discards one application if it has expired, in a commit of its own. -/
def discardExpired (d : Desk) (reference : Reference) : Desk := d.commit (d.expiryRecords reference)

/-- Discards all expired applications one after the other, and tells how many there were. They come
by their references, which stands for any order that a table may have them in. -/
def expire (d : Desk) : Nat × Desk :=
  let expired := d.expiredApplications
  (expired.length, (expired.map (·.reference)).foldl discardExpired d)

end Desk

end PrisonVisits
