import PrisonVisits.Desk.Bookings

/-! Reading at the desk: which sessions can be booked and how full they are, and what is known about
a booking. Nothing here changes the desk. -/

namespace PrisonVisits

/-- Asks for the sessions of a prison between two dates, for one prisoner or for anybody. -/
structure SessionQuery where
  prisonCode : String
  prisonerId : Option String
  first : Date
  last : Date

/-- A session with the seats taken in it. -/
structure OfferedSession where
  occurrence : SessionOccurrence
  load : SessionLoad
deriving DecidableEq

namespace OfferedSession

/-- Sessions are offered by their start, at the same start by template. -/
def precedes (a b : OfferedSession) : Bool :=
  a.occurrence.window.start < b.occurrence.window.start ||
    a.occurrence.window.start == b.occurrence.window.start &&
      (compare a.occurrence.templateReference b.occurrence.templateReference).isLE

end OfferedSession

namespace Desk

/-- The session of a template on a date, with the visits counted in it. -/
def offered (d : Desk) (t : SessionTemplate) (date : Date) : OfferedSession :=
  let occurrence := t.occurrence date
  ⟨occurrence, occurrence.load (d.store.visitsInRoomDay occurrence.roomDay)⟩

/-- The prisoner of a query must be held at its prison. -/
def queryContext (d : Desk) (q : SessionQuery) : Except Refusal (Option PrisonerContext) :=
  match q.prisonerId with
  | none => .ok none
  | some prisonerId => do
    let context ← d.prisoner prisonerId
    require (context.prisonCode == q.prisonCode) (.validation (.notHeldAt prisonerId q.prisonCode))
    return some context

/-- The template is active and, if a prisoner asks, open to that prisoner. -/
def offers (d : Desk) (context : Option PrisonerContext) (t : SessionTemplate) :
    Except Refusal Bool :=
  if !t.active then .ok false
  else
    match context with
    | none => .ok true
    | some context => do
      let eligibility ← d.store.eligibilityOf t
      return eligibility.allows context

/-- The sessions that a template has between two dates, if it is offered. -/
def templateSessions (d : Desk) (context : Option PrisonerContext) (first last : Date)
    (t : SessionTemplate) : Except Refusal (List OfferedSession) := do
  if ← d.offers context t then return (t.dates first last).toList.map (d.offered t)
  else return []

/-- The sessions that can be booked now, by their start. The booking window narrows the query. -/
def sessions (d : Desk) (q : SessionQuery) : Except Refusal (List OfferedSession) := do
  require (q.first ≤ q.last) (.validation (.queryBackwards q.first q.last))
  let context ← d.queryContext q
  let (earliest, latest) ← d.bookingWindow
  let first := max q.first earliest
  let last := min q.last latest
  if last < first then return []
  else
    let sessions ← (d.store.templatesForPrison q.prisonCode).mapM
      (d.templateSessions context first last)
    return sessions.flatten.mergeSort OfferedSession.precedes

/-- Reserved and booked visits of a template's session. -/
def sessionLoad (d : Desk) (template : Reference) (date : Date) : Except Refusal SessionLoad := do
  let t ← d.store.getTemplate template
  require (t.schedule.firesOn date) (.validation (.notOnDate template date))
  return (d.offered t date).load

/-- The visit that stands for a booking: the booked one, else the last one made. -/
def visit (d : Desk) (bookingReference : Reference) : Except Refusal Visit :=
  let rows := d.store.visitsForReference bookingReference
  found .visit bookingReference (rows.find? Visit.isBooked <|> rows.getLast?)

/-- When a booking was first confirmed, whatever happened to it later. -/
def firstBookedAt (d : Desk) (bookingReference : Reference) : Option Moment :=
  ((d.store.auditsFor bookingReference).filter fun a => a.kind == .bookedVisit).foldl
    (fun earliest a =>
      match earliest with
      | some m => if a.recordedAt < m then some a.recordedAt else some m
      | none => some a.recordedAt)
    none

end Desk

end PrisonVisits
