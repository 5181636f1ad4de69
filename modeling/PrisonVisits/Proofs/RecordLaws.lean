import PrisonVisits.Journal.RecordWire
import PrisonVisits.Proofs.CalendarText
import PrisonVisits.Proofs.WireLaws

/-! # Records are read back

Every row and every record is a `LawfulWire`: its bytes give it back, and a decoder that has found
one is not disturbed by what follows. Rows go field by field, in the order in which they are
written. -/

namespace PrisonVisits

open Wire

instance : LawfulWire Date := lawful_ofText Date.ofText?_text

instance : LawfulWire TimeOfDay := lawful_ofText TimeOfDay.ofText?_text

instance : LawfulWire Moment := lawful_ofText Moment.ofText?_text

instance : LawfulWire Weekday := lawful_ofText Weekday.ofText?_text

instance : LawfulWire Category := lawful_enumerated (by intro w; cases w <;> rfl) (by decide)

instance : LawfulWire IncentiveLevel := lawful_enumerated (by intro w; cases w <;> rfl) (by decide)

instance : LawfulWire VisitRestriction :=
  lawful_enumerated (by intro w; cases w <;> rfl) (by decide)

instance : LawfulWire VisitStatus := lawful_enumerated (by intro w; cases w <;> rfl) (by decide)

instance : LawfulWire Outcome := lawful_enumerated (by intro w; cases w <;> rfl) (by decide)

instance : LawfulWire NoteKind := lawful_enumerated (by intro w; cases w <;> rfl) (by decide)

instance : LawfulWire ApplicationKind :=
  lawful_enumerated (by intro w; cases w <;> rfl) (by decide)

instance : LawfulWire AuditKind := lawful_enumerated (by intro w; cases w <;> rfl) (by decide)

/-- A path is made up of its own levels again. -/
theorem LocationPath.ofLevels_levels (p : LocationPath) :
    ofLevels (p.levels.head p.levels_ne_nil) p.levels[1]? p.levels[2]? p.levels[3]? = .ok p := by
  obtain ⟨first, deeper, hlevels⟩ := List.exists_cons_of_ne_nil p.levels_ne_nil
  have hdepth := p.depth_le
  simp only [hlevels, List.length_cons] at hdepth
  simp only [hlevels, List.head_cons, List.getElem?_cons_succ]
  exact (ofLevels_getElem?_eq_ok_iff (by omega)).mpr hlevels

instance : LawfulWire LocationPath where
  reads p := by
    unfold instWireLocationPath
    simp only [List.append_assoc]
    refine .field _ (.field _ (.field _ (Reads.map (LawfulWire.reads _) (.require ?_))))
    rw [LocationPath.ofLevels_levels]
    rfl
  steady := .field fun _ => .field fun _ => .field fun _ => .field fun _ => .require _
  nonempty p := by unfold instWireLocationPath; simp [LawfulWire.nonempty]

instance : LawfulWire TimeWindow where
  reads _ := .field _ (.last _ rfl)
  steady := .field fun _ => .field fun _ => .pure _
  nonempty w := by unfold instWireTimeWindow; simp [LawfulWire.nonempty]

instance : LawfulWire GroupEntries where
  reads
    | .locations _ => (Reads.readVariant (by decide)).bind (.last _ rfl)
    | .categories _ => (Reads.readVariant (by decide)).bind (.last _ rfl)
    | .incentives _ => (Reads.readVariant (by decide)).bind (.last _ rfl)
  steady := by
    refine Steady.readVariant.bind fun n => ?_
    split
    · exact .field fun _ => .pure _
    · exact .field fun _ => .pure _
    · exact .field fun _ => .pure _
    · exact .require none
  nonempty entries := by cases entries <;> (unfold instWireGroupEntries; simp [variant_ne_nil])

instance : LawfulWire HierarchyGroup where
  reads _ := by
    unfold instWireHierarchyGroup
    simp only [List.append_assoc]
    exact .field _ (.field _ (.field _ (.last _ rfl)))
  steady := .field fun _ => .field fun _ => .field fun _ => .field fun _ => .pure _
  nonempty _ := by unfold instWireHierarchyGroup; simp [LawfulWire.nonempty]

instance : LawfulWire SessionCapacity where
  reads _ := .field _ (.last _ rfl)
  steady := .field fun _ => .field fun _ => .pure _
  nonempty _ := by unfold instWireSessionCapacity; simp [LawfulWire.nonempty]

instance : LawfulWire TemplateDraft where
  reads _ := by
    unfold instWireTemplateDraft
    simp only [List.append_assoc]
    iterate 12 refine .field _ ?_
    exact .last _ rfl
  steady := by
    iterate 13 refine .field fun _ => ?_
    exact .pure _
  nonempty _ := by unfold instWireTemplateDraft; simp [LawfulWire.nonempty]

instance : LawfulWire SessionTemplate where
  reads _ := by
    unfold instWireSessionTemplate
    simp only [List.append_assoc]
    exact .field _ (.field _ (.last _ rfl))
  steady := .field fun _ => .field fun _ => .field fun _ => .pure _
  nonempty _ := by unfold instWireSessionTemplate; simp [LawfulWire.nonempty]

instance : LawfulWire ContactDetails where
  reads _ := .field _ (.last _ rfl)
  steady := .field fun _ => .field fun _ => .pure _
  nonempty _ := by unfold instWireContactDetails; simp [LawfulWire.nonempty]

instance : LawfulWire Visitor where
  reads _ := .field _ (.last _ rfl)
  steady := .field fun _ => .field fun _ => .pure _
  nonempty _ := by unfold instWireVisitor; simp [LawfulWire.nonempty]

instance : LawfulWire VisitorSupport where
  reads _ := .field _ (.last _ rfl)
  steady := .field fun _ => .field fun _ => .pure _
  nonempty _ := by unfold instWireVisitorSupport; simp [LawfulWire.nonempty]

instance : LawfulWire VisitNote where
  reads _ := .field _ (.last _ rfl)
  steady := .field fun _ => .field fun _ => .pure _
  nonempty _ := by unfold instWireVisitNote; simp [LawfulWire.nonempty]

instance : LawfulWire Application where
  reads _ := by
    unfold instWireApplication
    simp only [List.append_assoc]
    iterate 14 refine .field _ ?_
    exact .last _ rfl
  steady := by
    iterate 15 refine .field fun _ => ?_
    exact .pure _
  nonempty _ := by unfold instWireApplication; simp [LawfulWire.nonempty]

instance : LawfulWire Visit where
  reads _ := by
    unfold instWireVisit
    simp only [List.append_assoc]
    iterate 16 refine .field _ ?_
    exact .last _ rfl
  steady := by
    iterate 17 refine .field fun _ => ?_
    exact .pure _
  nonempty _ := by unfold instWireVisit; simp [LawfulWire.nonempty]

instance : LawfulWire EventAudit where
  reads _ := by
    unfold instWireEventAudit
    simp only [List.append_assoc]
    iterate 5 refine .field _ ?_
    exact .last _ rfl
  steady := by
    iterate 6 refine .field fun _ => ?_
    exact .pure _
  nonempty _ := by unfold instWireEventAudit; simp [LawfulWire.nonempty]

instance : LawfulWire Record where
  reads record := by
    cases record <;> exact (Reads.readVariant (by decide)).bind (.last _ rfl)
  steady := by
    refine Steady.readVariant.bind fun n => ?_
    split
    case h_10 => exact .require none
    all_goals exact .field fun _ => .pure _
  nonempty record := by cases record <;> (unfold instWireRecord; simp [variant_ne_nil])

/-! ## Commits -/

/-- A commit is read back whole from its bytes and nothing behind them is touched. Its length and
those of its parts are written in 64 bits, so the bytes must be no more than these can count. -/
theorem commit_read_back (commit : Commit) (hsize : (encode commit).length < 2 ^ 64)
    (rest : List UInt8) :
    (decode : Decoder Commit).run (encode commit ++ rest) = some (commit, rest) ∧
    decode? (encode commit ++ rest) = some commit := by
  have hread := LawfulWire.reads commit hsize rest
  exact ⟨hread, by rw [decode?, hread]; rfl⟩

namespace Sample

/-- A date in a year before the first. -/
def ancient : Date := ⟨-1000000, by decide, by decide⟩

/-- The last millisecond of the calendar. -/
def endOfCalendar : Moment :=
  ⟨.last, ⟨86399, 999000000, by decide, .inl (by decide)⟩⟩

/-- One record of each kind, with dates outside of the years of four digits. -/
def varied : Commit :=
  [.groupSaved ⟨"g", "HEI", "Wing A", .locations [⟨["A", "1", "2", "003"], by decide, by decide,
      by decide⟩]⟩,
    .groupDeleted "h",
    .templateSaved ⟨⟨"Morgens", "HEI", "Saal ä", .sunday, endOfCalendar.time, endOfCalendar.time,
      ancient, some .last, 4294967295, ⟨1, 0⟩, ["g"], [], ["i", "j"]⟩, "t", true⟩,
    .templateDeleted "u",
    .applicationSaved ⟨"a", "b", .change, "HEI", "A0001AA", "t", ancient, .closedVisit,
      some ⟨"Ann", none⟩, [⟨-1, true⟩], [⟨"WHEELCHAIR", some ""⟩], false, "clerk", endOfCalendar,
      endOfCalendar⟩,
    .applicationDeleted "c",
    .visitSaved ⟨18446744073709551615, "b", "a", "HEI", "A0001AA", "t", "Saal ä",
      ⟨endOfCalendar, endOfCalendar⟩, .openVisit, .cancelled, some .visitorCancelled, none,
      [⟨2, false⟩], [], [⟨.visitComment, "late"⟩], endOfCalendar, endOfCalendar⟩,
    .visitDeleted 0,
    .audit ⟨"b", some "a", none, .cancelledVisit, "clerk", endOfCalendar⟩]

end Sample

theorem commit_read_back_sample :
    (encode Sample.varied).length < 2 ^ 64 ∧
    (decode : Decoder Commit).run (encode Sample.varied ++ [0, 1]) = some (Sample.varied, [0, 1]) :=
  have hsize : (encode Sample.varied).length < 2 ^ 64 := by decide +kernel
  ⟨hsize, (commit_read_back Sample.varied hsize [0, 1]).1⟩

end PrisonVisits
