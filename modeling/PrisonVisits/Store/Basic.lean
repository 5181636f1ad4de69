import PrisonVisits.Booking.Record
import PrisonVisits.Store.Index

/-! The store: every stored row, and the indexes that find rows by other keys. Rows change only by
applying a record, and the same step keeps the indexes. A snapshot is a short list of commits whose
records build the same rows again: groups, then templates, applications, visits and audits. -/

namespace PrisonVisits

structure Store where
  groups : Std.ExtTreeMap Reference HierarchyGroup
  templates : Std.ExtTreeMap Reference SessionTemplate
  templatesByPrison : NameIndex String
  applications : Std.ExtTreeMap Reference Application
  visits : Std.ExtTreeMap UInt64 Visit
  visitsByReference : RowIndex Reference
  /-- The visit that was last given to an application. -/
  visitByApplication : Std.ExtTreeMap Reference UInt64
  visitsByRoomDay : RowIndex RoomDay
  visitsByTemplate : RowIndex Reference
  audits : Std.ExtTreeMap Reference (List EventAudit)
  nextVisitId : UInt64

namespace Store

def empty : Store where
  groups := ∅
  templates := ∅
  templatesByPrison := ∅
  applications := ∅
  visits := ∅
  visitsByReference := ∅
  visitByApplication := ∅
  visitsByRoomDay := ∅
  visitsByTemplate := ∅
  audits := ∅
  nextVisitId := 1

/-- Takes an application's visit away, unless the application has been given another one. -/
def dropApplicationVisit (visitByApplication : Std.ExtTreeMap Reference UInt64)
    (application : Reference) (id : UInt64) : Std.ExtTreeMap Reference UInt64 :=
  if visitByApplication[application]? = some id then visitByApplication.erase application
  else visitByApplication

def saveTemplate (s : Store) (template : SessionTemplate) : Store :=
  let index := match s.templates[template.reference]? with
    | some old =>
      if old.prisonCode = template.prisonCode then s.templatesByPrison
      else s.templatesByPrison.remove old.prisonCode old.reference
    | none => s.templatesByPrison
  { s with
    templates := s.templates.insert template.reference template
    templatesByPrison := NameIndex.add index template.prisonCode template.reference }

def deleteTemplate (s : Store) (reference : Reference) : Store :=
  match s.templates[reference]? with
  | none => s
  | some old =>
    { s with
      templates := s.templates.erase reference
      templatesByPrison := s.templatesByPrison.remove old.prisonCode reference }

/-- Enters a new row into every index. -/
def indexVisit (s : Store) (v : Visit) : Store :=
  { s with
    visitsByReference := s.visitsByReference.add v.reference v.id
    visitsByRoomDay := s.visitsByRoomDay.add v.roomDay v.id
    visitsByTemplate := s.visitsByTemplate.add v.sessionTemplateReference v.id
    visitByApplication := s.visitByApplication.insert v.applicationReference v.id }

/-- Moves a row that was saved again to its new keys. Keys that stay are left alone. -/
def reindexVisit (s : Store) (old new : Visit) : Store :=
  { s with
    visitsByReference := s.visitsByReference.move old.reference new.reference new.id
    visitsByRoomDay := s.visitsByRoomDay.move old.roomDay new.roomDay new.id
    visitsByTemplate :=
      s.visitsByTemplate.move old.sessionTemplateReference new.sessionTemplateReference new.id
    visitByApplication :=
      if old.applicationReference = new.applicationReference then s.visitByApplication
      else dropApplicationVisit (s.visitByApplication.insert new.applicationReference new.id)
        old.applicationReference new.id }

def unindexVisit (s : Store) (v : Visit) : Store :=
  { s with
    visitsByReference := s.visitsByReference.remove v.reference v.id
    visitsByRoomDay := s.visitsByRoomDay.remove v.roomDay v.id
    visitsByTemplate := s.visitsByTemplate.remove v.sessionTemplateReference v.id
    visitByApplication := dropApplicationVisit s.visitByApplication v.applicationReference v.id }

/-- Ids given out later lie above the ids of all saved visits. -/
def saveVisit (s : Store) (v : Visit) : Store :=
  let indexed := match s.visits[v.id]? with
    | some old => s.reindexVisit old v
    | none => s.indexVisit v
  { indexed with
    visits := s.visits.insert v.id v
    nextVisitId := max s.nextVisitId (v.id + 1) }

def deleteVisit (s : Store) (id : UInt64) : Store :=
  match s.visits[id]? with
  | none => s
  | some old => { s.unindexVisit old with visits := s.visits.erase id }

def addAudit (s : Store) (a : EventAudit) : Store :=
  let earlier := s.audits[a.bookingReference]?.getD []
  { s with audits := s.audits.insert a.bookingReference (earlier ++ [a]) }

def apply (s : Store) : Record → Store
  | .groupSaved group => { s with groups := s.groups.insert group.reference group }
  | .groupDeleted reference => { s with groups := s.groups.erase reference }
  | .templateSaved template => s.saveTemplate template
  | .templateDeleted reference => s.deleteTemplate reference
  | .applicationSaved application =>
    { s with applications := s.applications.insert application.reference application }
  | .applicationDeleted reference => { s with applications := s.applications.erase reference }
  | .visitSaved visit => s.saveVisit visit
  | .visitDeleted id => s.deleteVisit id
  | .audit audit => s.addAudit audit

def applyCommit (s : Store) (commit : Commit) : Store := commit.foldl apply s

/-- The store that a list of commits builds from nothing. -/
def ofCommits (commits : List Commit) : Store := commits.foldl applyCommit empty

/-- Gives out a visit id. The counter starts again at zero after the last one. -/
def takeVisitId (s : Store) : UInt64 × Store :=
  (s.nextVisitId, { s with nextVisitId := s.nextVisitId + 1 })

/-- Commits that build the same rows again. There are no empty ones. Visits come by id, as they
must; in the other tables the order of the keys stands for any. -/
def snapshot (s : Store) : List Commit :=
  [s.groups.values.map .groupSaved, s.templates.values.map .templateSaved,
    s.applications.values.map .applicationSaved, s.visits.values.map .visitSaved,
    s.audits.values.flatten.map .audit].filter fun commit => !commit.isEmpty

end Store

end PrisonVisits
