import PrisonVisits.Store.Basic

/-! Questions to the store. Visits are answered in the order of their ids, groups by name and then
by reference, templates of a prison in the order in which they came. -/

namespace PrisonVisits.Store

def group? (s : Store) (reference : Reference) : Option HierarchyGroup := s.groups[reference]?

def groupsForPrison (s : Store) (prisonCode : String) : List HierarchyGroup :=
  (s.groups.values.filter fun g => g.prisonCode == prisonCode).mergeSort fun a b =>
    (compare a.name b.name).isLE

def template? (s : Store) (reference : Reference) : Option SessionTemplate :=
  s.templates[reference]?

def templatesForPrison (s : Store) (prisonCode : String) : List SessionTemplate :=
  (s.templatesByPrison.names prisonCode).filterMap s.template?

def templateCount (s : Store) (prisonCode : String) : Nat :=
  (s.templatesByPrison.names prisonCode).length

/-- The templates that name the group, in the order of their references. -/
def templatesUsingGroup (s : Store) (group : Reference) : List Reference :=
  (s.templates.values.filter fun t => t.groupReferences.contains group).map (·.reference)

def application? (s : Store) (reference : Reference) : Option Application :=
  s.applications[reference]?

/-- A stored group, template, application or booking has the reference. -/
def containsReference (s : Store) (reference : Reference) : Bool :=
  s.applications.contains reference || s.visitsByReference.contains reference ||
    s.templates.contains reference || s.groups.contains reference

/-- Incomplete applications that were last touched before the given moment. -/
def staleApplications (s : Store) (cutoff : Moment) : List Application :=
  s.applications.values.filter fun a => !a.completed && a.modifiedAt < cutoff

def visit? (s : Store) (id : UInt64) : Option Visit := s.visits[id]?

def visitsForReference (s : Store) (reference : Reference) : List Visit :=
  (s.visitsByReference.ids reference).filterMap s.visit?

/-- The booked visit of a booking; the first one, should there be several. -/
def bookedVisit? (s : Store) (reference : Reference) : Option Visit :=
  (s.visitsForReference reference).find? Visit.isBooked

def visitForApplication? (s : Store) (application : Reference) : Option Visit :=
  s.visitByApplication[application]?.bind s.visit?

def visitsInRoomDay (s : Store) (roomDay : RoomDay) : List Visit :=
  (s.visitsByRoomDay.ids roomDay).filterMap s.visit?

def visitsForTemplate (s : Store) (template : Reference) : List Visit :=
  (s.visitsByTemplate.ids template).filterMap s.visit?

def auditsFor (s : Store) (bookingReference : Reference) : List EventAudit :=
  s.audits[bookingReference]?.getD []

end PrisonVisits.Store
