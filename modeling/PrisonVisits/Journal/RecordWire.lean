import PrisonVisits.Booking.Record
import PrisonVisits.Calendar.Text
import PrisonVisits.Journal.Wire

/-! The bytes of records. Rows are written field by field in a fixed order, variants by their place
in their declaration, dates, times and weekdays as their texts. A location path is checked when it
is read, so bytes never give one that could not be made. -/

namespace PrisonVisits

open Wire

instance : Wire Date := Wire.ofText Date.text Date.ofText?

instance : Wire TimeOfDay := Wire.ofText TimeOfDay.text TimeOfDay.ofText?

instance : Wire Moment := Wire.ofText Moment.text Moment.ofText?

instance : Wire Weekday := Wire.ofText Weekday.text Weekday.ofText?

instance : Wire TimeWindow where
  encode w := encode w.start ++ encode w.stop
  decode := do return ⟨← decode, ← decode⟩

instance : Wire LocationPath where
  encode p :=
    encode (p.levels.head p.levels_ne_nil) ++ encode p.levels[1]? ++ encode p.levels[2]? ++
      encode p.levels[3]?
  decode := do
    let first ← decode
    let second ← decode
    let third ← decode
    let fourth ← decode
    require (LocationPath.ofLevels first second third fourth).toOption

instance : Wire Category := Wire.enumerated

instance : Wire IncentiveLevel := Wire.enumerated

instance : Wire VisitRestriction := Wire.enumerated

instance : Wire VisitStatus := Wire.enumerated

instance : Wire Outcome := Wire.enumerated

instance : Wire NoteKind := Wire.enumerated

instance : Wire ApplicationKind := Wire.enumerated

instance : Wire AuditKind := Wire.enumerated

instance : Wire GroupEntries where
  encode
    | .locations entries => variant 0 ++ encode entries
    | .categories entries => variant 1 ++ encode entries
    | .incentives entries => variant 2 ++ encode entries
  decode := do
    match ← readVariant with
    | 0 => return .locations (← decode)
    | 1 => return .categories (← decode)
    | 2 => return .incentives (← decode)
    | _ => require none

instance : Wire HierarchyGroup where
  encode g := encode g.reference ++ encode g.prisonCode ++ encode g.name ++ encode g.entries
  decode := do return ⟨← decode, ← decode, ← decode, ← decode⟩

instance : Wire SessionCapacity where
  encode c := encode c.openSeats ++ encode c.closedSeats
  decode := do return ⟨← decode, ← decode⟩

instance : Wire TemplateDraft where
  encode d :=
    encode d.name ++ encode d.prisonCode ++ encode d.visitRoom ++ encode d.dayOfWeek ++
      encode d.startTime ++ encode d.endTime ++ encode d.validFrom ++ encode d.validTo ++
      encode d.weeklyFrequency ++ encode d.capacity ++ encode d.locationGroups ++
      encode d.categoryGroups ++ encode d.incentiveGroups
  decode := do
    return ⟨← decode, ← decode, ← decode, ← decode, ← decode, ← decode, ← decode, ← decode,
      ← decode, ← decode, ← decode, ← decode, ← decode⟩

instance : Wire SessionTemplate where
  encode t := encode t.reference ++ encode t.toTemplateDraft ++ encode t.active
  decode := do
    let reference ← decode
    let draft ← decode
    let active ← decode
    return .ofDraft reference draft active

instance : Wire ContactDetails where
  encode c := encode c.name ++ encode c.telephone
  decode := do return ⟨← decode, ← decode⟩

instance : Wire Visitor where
  encode v := encode v.nomisPersonId ++ encode v.visitContact
  decode := do return ⟨← decode, ← decode⟩

instance : Wire VisitorSupport where
  encode s := encode s.code ++ encode s.text
  decode := do return ⟨← decode, ← decode⟩

instance : Wire VisitNote where
  encode n := encode n.kind ++ encode n.text
  decode := do return ⟨← decode, ← decode⟩

instance : Wire Application where
  encode a :=
    encode a.reference ++ encode a.bookingReference ++ encode a.kind ++ encode a.prisonCode ++
      encode a.prisonerId ++ encode a.sessionTemplateReference ++ encode a.sessionDate ++
      encode a.restriction ++ encode a.contact ++ encode a.visitors ++ encode a.support ++
      encode a.completed ++ encode a.createdBy ++ encode a.createdAt ++ encode a.modifiedAt
  decode := do
    return ⟨← decode, ← decode, ← decode, ← decode, ← decode, ← decode, ← decode, ← decode,
      ← decode, ← decode, ← decode, ← decode, ← decode, ← decode, ← decode⟩

instance : Wire Visit where
  encode v :=
    encode v.id ++ encode v.reference ++ encode v.applicationReference ++ encode v.prisonCode ++
      encode v.prisonerId ++ encode v.sessionTemplateReference ++ encode v.visitRoom ++
      encode v.window ++ encode v.restriction ++ encode v.status ++ encode v.outcome ++
      encode v.contact ++ encode v.visitors ++ encode v.support ++ encode v.notes ++
      encode v.createdAt ++ encode v.modifiedAt
  decode := do
    return ⟨← decode, ← decode, ← decode, ← decode, ← decode, ← decode, ← decode, ← decode,
      ← decode, ← decode, ← decode, ← decode, ← decode, ← decode, ← decode, ← decode, ← decode⟩

instance : Wire EventAudit where
  encode a :=
    encode a.bookingReference ++ encode a.applicationReference ++
      encode a.sessionTemplateReference ++ encode a.kind ++ encode a.actionedBy ++
      encode a.recordedAt
  decode := do
    return ⟨← decode, ← decode, ← decode, ← decode, ← decode, ← decode⟩

instance : Wire Record where
  encode
    | .groupSaved group => variant 0 ++ encode group
    | .groupDeleted reference => variant 1 ++ encode reference
    | .templateSaved template => variant 2 ++ encode template
    | .templateDeleted reference => variant 3 ++ encode reference
    | .applicationSaved application => variant 4 ++ encode application
    | .applicationDeleted reference => variant 5 ++ encode reference
    | .visitSaved visit => variant 6 ++ encode visit
    | .visitDeleted id => variant 7 ++ encode id
    | .audit audit => variant 8 ++ encode audit
  decode := do
    match ← readVariant with
    | 0 => return .groupSaved (← decode)
    | 1 => return .groupDeleted (← decode)
    | 2 => return .templateSaved (← decode)
    | 3 => return .templateDeleted (← decode)
    | 4 => return .applicationSaved (← decode)
    | 5 => return .applicationDeleted (← decode)
    | 6 => return .visitSaved (← decode)
    | 7 => return .visitDeleted (← decode)
    | 8 => return .audit (← decode)
    | _ => require none

end PrisonVisits
