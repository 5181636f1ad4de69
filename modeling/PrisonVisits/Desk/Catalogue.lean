import PrisonVisits.Desk.Basic

/-! Administration of groups and session templates. Templates that conflict are reported, not
refused. A template may not change so that a live visit still to come no longer lies in one of its
sessions, may not be switched off while there are such visits, and may not be deleted while any
visit names it. -/

namespace PrisonVisits

open Text

/-- A stored template and the templates of its prison that conflict with it. -/
structure SavedTemplate where
  template : SessionTemplate
  conflicts : List Reference
deriving DecidableEq

/-- References in ascending order, each once. -/
def sortedReferences (references : List Reference) : List Reference :=
  (Std.ExtTreeSet.ofList references).toList

def checkName (name : String) : Except Refusal Unit := do
  require (!isBlank name) (.validation .blankName)
  require (byteLength name ≤ Limits.maxNameLength) (.limitExceeded .nameTooLong)

def checkEntries (entries : GroupEntries) : Except Refusal Unit :=
  require (entries.size ≤ Limits.maxEntriesPerGroup) (.limitExceeded .tooManyEntries)

def checkYear (date : Date) : Except Refusal Unit :=
  require (Limits.minTemplateYear ≤ date.civil.year && date.civil.year ≤ Limits.maxTemplateYear)
    (.validation (.yearUnsupported date))

/-- The checks on a draft that need nothing but the draft. -/
def TemplateDraft.check (t : TemplateDraft) : Except Refusal Unit := do
  checkName t.name
  require (!isBlank t.prisonCode && !isBlank t.visitRoom) (.validation .placeMissing)
  require (t.startTime < t.endTime) (.validation (.endsBeforeStart t.startTime t.endTime))
  match t.validTo with
  | some validTo =>
    require (t.validFrom ≤ validTo) (.validation (.validToBeforeFrom t.validFrom validTo))
    checkYear t.validFrom
    checkYear validTo
  | none => checkYear t.validFrom
  require (1 ≤ t.weeklyFrequency) (.validation .frequencyZero)
  require (t.weeklyFrequency ≤ Limits.maxWeeklyFrequency) (.limitExceeded .frequencyTooLarge)
  require (t.capacity.openSeats != 0 || t.capacity.closedSeats != 0) (.validation .noCapacity)
  require (t.groupReferences.length ≤ Limits.maxGroupsPerTemplate) (.limitExceeded .tooManyGroups)

namespace Store

def getGroup (s : Store) (reference : Reference) : Except Refusal HierarchyGroup :=
  found .group reference (s.group? reference)

def getTemplate (s : Store) (reference : Reference) : Except Refusal SessionTemplate :=
  found .sessionTemplate reference (s.template? reference)

/-- The entries of a group that a template of a prison names in a dimension. -/
def resolve (s : Store) (prisonCode : String) (kind : GroupKind) (reference : Reference) :
    Except Refusal GroupEntries := do
  let group ← s.getGroup reference
  require (group.entries.kind == kind) (.validation (.groupOfOtherKind reference kind))
  require (group.prisonCode == prisonCode)
    (.validation (.groupOfOtherPrison reference group.prisonCode prisonCode))
  return group.entries

/-- Who may come to a template's sessions. -/
def eligibilityOf (s : Store) (t : SessionTemplate) : Except Refusal Eligibility := do
  let locations ← t.locationGroups.mapM (s.resolve t.prisonCode .location)
  let categories ← t.categoryGroups.mapM (s.resolve t.prisonCode .category)
  let incentives ← t.incentiveGroups.mapM (s.resolve t.prisonCode .incentive)
  return .ofEntries (locations ++ categories ++ incentives)

def shapeOf (s : Store) (t : SessionTemplate) : Except Refusal SessionShape := do
  let eligibility ← s.eligibilityOf t
  return ⟨t, eligibility⟩

/-- The stored templates of the same prison that conflict with a template, in ascending order. -/
def conflictsOf (s : Store) (candidate : SessionTemplate) : Except Refusal (List Reference) := do
  let shape ← s.shapeOf candidate
  let existing ← (s.templatesForPrison candidate.prisonCode).mapM s.shapeOf
  return sortedReferences (shape.conflictsAmong existing)

/-- The conflicts that a draft would have. -/
def previewConflicts (s : Store) (draft : TemplateDraft) : Except Refusal (List Reference) := do
  draft.check
  s.conflictsOf (.ofDraft "" draft true)

/-- A visit of one template may be moved to another: everything that held there holds here. -/
def checkMove (s : Store) (source target : Reference) : Except Refusal Unit := do
  let sourceTemplate ← s.getTemplate source
  let targetTemplate ← s.getTemplate target
  let sourceShape ← s.shapeOf sourceTemplate
  let targetShape ← s.shapeOf targetTemplate
  let gaps := sourceShape.gapsTo targetShape
  require gaps.isEmpty (.conflict (.notCovered source target gaps) [source, target])

/-- Visits of a template that are not cancelled and have not begun. -/
def liveVisits (s : Store) (template : Reference) (now : Moment) : List Visit :=
  (s.visitsForTemplate template).filter fun v => !v.isCancelled && now ≤ v.window.start

end Store

/-- The visit lies in a session of the template. -/
def SessionTemplate.fits (t : SessionTemplate) (v : Visit) : Bool :=
  t.schedule.firesOn v.date && v.visitRoom == t.visitRoom &&
    (t.occurrence v.date).window.contains v.window

namespace Desk

def planCreateGroup (d : Desk) (prisonCode name : String) (entries : GroupEntries) :
    Plan (Transition HierarchyGroup) := do
  checkName name
  checkEntries entries
  let reference ← d.store.freshReference
  let group : HierarchyGroup := { reference, prisonCode, name, entries }
  return .of group [.groupSaved group]

/-- A group keeps its prison and its kind. -/
def planUpdateGroup (d : Desk) (reference : Reference) (name : String) (entries : GroupEntries) :
    Except Refusal (Transition HierarchyGroup) := do
  checkName name
  checkEntries entries
  let existing ← d.store.getGroup reference
  require (existing.entries.kind == entries.kind)
    (.validation (.groupKindFixed reference existing.entries.kind entries.kind))
  let group := { existing with name, entries }
  return .of group [.groupSaved group]

def planDeleteGroup (d : Desk) (reference : Reference) : Except Refusal (Transition Unit) := do
  let _ ← d.store.getGroup reference
  let users := d.store.templatesUsingGroup reference
  require users.isEmpty (.conflict (.groupInUse reference) users)
  return .of () [.groupDeleted reference]

def planCreateTemplate (d : Desk) (draft : TemplateDraft) : Plan (Transition SavedTemplate) := do
  draft.check
  require (d.store.templateCount draft.prisonCode < Limits.maxTemplatesPerPrison)
    (.limitExceeded .tooManyTemplates)
  let reference ← d.store.freshReference
  let template := SessionTemplate.ofDraft reference draft true
  let conflicts ← d.store.conflictsOf template
  return .of ⟨template, conflicts⟩ [.templateSaved template]

def planUpdateTemplate (d : Desk) (reference : Reference) (draft : TemplateDraft) :
    Except Refusal (Transition SavedTemplate) := do
  draft.check
  let existing ← d.store.getTemplate reference
  require (existing.prisonCode == draft.prisonCode) (.validation .prisonFixed)
  let updated := SessionTemplate.ofDraft existing.reference draft existing.active
  let stranded := (d.store.liveVisits reference d.now).filter fun v => !updated.fits v
  require stranded.isEmpty (.conflict (.strandsVisits reference) (stranded.map (·.reference)))
  let conflicts ← d.store.conflictsOf updated
  return .of ⟨updated, conflicts⟩ [.templateSaved updated]

/-- Asking for the state that the template is in does nothing. -/
def planSetActive (d : Desk) (reference : Reference) (active : Bool) :
    Except Refusal (Transition SessionTemplate) := do
  let template ← d.store.getTemplate reference
  if template.active == active then return .nothing template
  else
    let live := if active then [] else d.store.liveVisits reference d.now
    require live.isEmpty (.conflict (.futureVisits reference) (live.map (·.reference)))
    let template := { template with active }
    return .of template [.templateSaved template]

def planDeleteTemplate (d : Desk) (reference : Reference) : Except Refusal (Transition Unit) := do
  let template ← d.store.getTemplate reference
  require (!template.active) (.conflict .templateActive [template.reference])
  let users := sortedReferences ((d.store.visitsForTemplate reference).map (·.reference))
  require users.isEmpty (.conflict (.visitsRemain reference) users)
  return .of () [.templateDeleted reference]

def createGroup (d : Desk) (prisonCode name : String) (entries : GroupEntries) :
    Except Refusal HierarchyGroup × Desk :=
  d.transact (d.planCreateGroup prisonCode name entries)

def updateGroup (d : Desk) (reference : Reference) (name : String) (entries : GroupEntries) :
    Except Refusal HierarchyGroup × Desk :=
  d.transact (liftM (d.planUpdateGroup reference name entries))

def deleteGroup (d : Desk) (reference : Reference) : Except Refusal Unit × Desk :=
  d.transact (liftM (d.planDeleteGroup reference))

def createTemplate (d : Desk) (draft : TemplateDraft) : Except Refusal SavedTemplate × Desk :=
  d.transact (d.planCreateTemplate draft)

def updateTemplate (d : Desk) (reference : Reference) (draft : TemplateDraft) :
    Except Refusal SavedTemplate × Desk :=
  d.transact (liftM (d.planUpdateTemplate reference draft))

def setTemplateActive (d : Desk) (reference : Reference) (active : Bool) :
    Except Refusal SessionTemplate × Desk :=
  d.transact (liftM (d.planSetActive reference active))

def deleteTemplate (d : Desk) (reference : Reference) : Except Refusal Unit × Desk :=
  d.transact (liftM (d.planDeleteTemplate reference))

end Desk

end PrisonVisits
