import PrisonVisits.Desk.Sessions
import PrisonVisits.Proofs.Capacity
import PrisonVisits.Proofs.ScheduleDates

/-! # The two counts of a session

Reading counts the reserved and the booked visits of a session; a reservation counts all that are
not cancelled, but those of its own booking. Visits begin and end on one day, so nothing in the
session is missed under its room and day. For a new booking the counts differ by the drafts of
changes. -/

namespace PrisonVisits

open Rows

/-! ## Visits of one day -/

/-- Every visit begins and ends on one day. -/
def Rows.Dated (t : Rows) : Prop := ∀ v, t.HasVisit v → v.window.stop.date = v.date

theorem Rows.dated_empty : Store.empty.rows.Dated :=
  fun v hv => absurd hv (not_hasVisit_empty v)

namespace Desk

variable {d : Desk}

/-- Every visit lies where one lay before, or in a session of a stored template, so what holds of
both kinds of windows holds of all. -/
theorem windows_of_writes {p : TimeWindow → Prop} (h : d.store.Linked)
    (hwindows : ∀ v, d.store.rows.HasVisit v → p v.window)
    (hsessions : ∀ (reference : Reference) T date, d.store.template? reference = some T →
      p (T.occurrence date).window)
    {a : Action} {c : Commit} (hw : d.Writes a c) :
    ∀ v, (d.store.rows.applyCommit c).HasVisit v → p v.window := by
  cases hedits : a.editsTemplates with
  | false =>
    have hstands : ∀ v, d.store.rows.Stands v → p v.window := by
      rintro v ⟨w, hw, -, hsits⟩
      rw [hsits.window]
      exact hwindows w hw
    intro v hv
    cases reseats_of_writes h hw hedits with
    | stays templates others => exact hstands v (others v hv)
    | takes templates takes others =>
      rcases others v hv with rfl | hsame
      · rw [takes.window]
        exact hsessions _ _ _ takes.admits.template
      · exact hstands v hsame
  | true =>
    cases hw with
    | createTemplate | updateTemplate | setTemplateActive | deleteTemplate => exact hwindows
    | createGroup | updateGroup | deleteGroup | reserve | change | amend | book | cancel | discard
    | expire => cases hedits

theorem dated_of_writes (h : d.store.Linked) (hdated : d.store.rows.Dated) {a : Action}
    {c : Commit} (hw : d.Writes a c) : (d.store.rows.applyCommit c).Dated :=
  windows_of_writes (p := fun w => w.stop.date = w.start.date) h hdated (fun _ _ _ _ => rfl) hw

theorem preserved_dated : Preserved False (fun _ _ => True) (fun _ t => t.Dated)
    (fun _ commits => (Store.ofCommits commits).rows.Dated) :=
  preserved_of_rows (fun _ => trivial) (fun _ => dated_empty)
    (fun h hdated _ hw => dated_of_writes h hdated hw) (fun _ hdated _ v hv => hdated v hv.of_first)
    (fun _ _ h => h)

end Desk

/-! ## Counting -/

/-- A visit inside a session lies in its room on its day. -/
theorem SessionTemplate.roomDay_of_holds {T : SessionTemplate} {date : Date} {v : Visit}
    (hdated : v.window.stop.date = v.date) (h : (T.occurrence date).holds v = true) :
    v.roomDay = (T.occurrence date).roomDay := by
  simp only [SessionOccurrence.holds, TimeWindow.contains, Bool.and_eq_true, beq_iff_eq,
    decide_eq_true_eq] at h
  obtain ⟨⟨hprison, hroom⟩, hstart, hstop⟩ := h
  have hday : v.date = date := by
    refine le_antisymm ?_ (Moment.date_le hstart)
    rw [← hdated]
    exact Moment.date_le hstop
  rw [Visit.roomDay, SessionOccurrence.roomDay, hprison, hroom, hday]
  rfl

/-- Drafts of changes in a session, of one restriction. -/
def Store.changing (s : Store) (o : SessionOccurrence) (r : VisitRestriction) : Nat :=
  s.visits.values.countP fun v => v.status == .changing && v.restriction == r && o.holds v

/-- Against a new booking count the visits that readers see and the drafts of changes. -/
theorem Desk.takenBeside_eq {d : Desk} (h : d.store.Sound) (hdated : d.store.rows.Dated)
    {bookingReference : Reference} (hunused : d.store.containsReference bookingReference = false)
    (T : SessionTemplate) (slot : Slot) :
    d.takenBeside T slot bookingReference =
      (d.offered T slot.date).load.taken slot.restriction +
        d.store.changing (T.occurrence slot.date) slot.restriction := by
  have hother : ∀ v ∈ d.store.visits.values,
      (some bookingReference != some v.reference) = true := by
    intro v hv
    have hne := (h.unused hunused).visit v (h.mem_visits.mp hv)
    exact bne_iff_ne.mpr fun hsame => hne (Option.some.inj hsame).symm
  have hroomDay : ∀ v ∈ d.store.visits.values, (T.occurrence slot.date).holds v = true →
      v.roomDay = (T.occurrence slot.date).roomDay := fun v hv hholds =>
    SessionTemplate.roomDay_of_holds (hdated v (h.mem_visits.mp hv)) hholds
  simp only [takenBeside, offered, SessionOccurrence.loadWithHolds, SessionOccurrence.load,
    SessionLoad.taken_ofVisits, Store.changing, h.visitsInRoomDay_eq, List.countP_filter]
  rw [List.countP_eq_countP_filter_add _ _ fun v => v.status != .changing]
  simp only [List.countP_filter]
  refine congrArg₂ (· + ·) (List.countP_congr fun v hv => ?_) (List.countP_congr fun v hv => ?_)
  · cases hstatus : v.status <;> simp [Visit.isCancelled, hstatus, hother v hv]
  · cases hholds : (T.occurrence slot.date).holds v with
    | false => simp
    | true => cases hstatus : v.status <;>
        simp [Visit.isCancelled, hstatus, hother v hv, hroomDay v hv hholds]

end PrisonVisits
