import Mathlib.Data.Finset.Card
import PrisonVisits.Proofs.Runs
import PrisonVisits.Proofs.Seats
import PrisonVisits.Proofs.TimeOrder

/-! # Sessions are not overbooked

What a session may hold is counted in bookings: a booking that asks again, or changes, has several
visits there and needs one seat. A seat is taken by holding a slot alone, and holding counts the
visits of the session's room and window. So the count finds every booking only if the visits still
to come lie where their template says, in the prison that holds the prisoner; the checks of template
updates keep the first, and the second holds as long as nobody is transferred. -/

namespace PrisonVisits

open Rows Table

/-- The visit takes a seat of the template on the date. -/
def Visit.takesSeat (v : Visit) (template : Reference) (date : Date)
    (r : VisitRestriction) : Bool :=
  !v.isCancelled && v.sessionTemplateReference == template && v.date == date && v.restriction == r

theorem Visit.SitsAs.takesSeat {v w : Visit} (h : v.SitsAs w) (hlive : w.isCancelled = false)
    {template : Reference} {date : Date} {r : VisitRestriction}
    (hv : v.takesSeat template date r = true) : w.takesSeat template date r = true := by
  simp only [Visit.takesSeat, Visit.date, h.template, h.window, h.restriction,
    Bool.and_eq_true] at hv
  simp only [Visit.takesSeat, Visit.date, hlive, Bool.and_eq_true]
  exact ⟨⟨⟨rfl, hv.1.1.2⟩, hv.1.2⟩, hv.2⟩

namespace Rows

/-- The bookings that have a seat of the template on the date. -/
def seated (t : Rows) (template : Reference) (date : Date)
    (r : VisitRestriction) : Finset Reference :=
  ((t.visits.values.filter fun v => v.takesSeat template date r).map (·.reference)).toFinset

variable {t t' : Rows}

theorem Keyed.mem_seated (h : t.Keyed) {template : Reference} {date : Date} {r : VisitRestriction}
    {reference : Reference} : reference ∈ t.seated template date r ↔
      ∃ v, t.HasVisit v ∧ v.takesSeat template date r = true ∧ v.reference = reference := by
  unfold seated HasVisit
  simp only [List.mem_toFinset, List.mem_map, List.mem_filter, h.visits.mem_values, and_assoc]

/-- Sessions are not overbooked, and visits still to come lie in sessions of their templates, in the
prison that holds the prisoner. -/
structure Seated (around : Surroundings) (t : Rows) : Prop where
  held : ∀ v, t.HasVisit v → v.isCancelled = false →
    ∃ context, around.prisoners[v.prisonerId]? = some context ∧ context.prisonCode = v.prisonCode
  template : ∀ v, t.HasVisit v → v.isCancelled = false →
    ∃ T, t.templates[v.sessionTemplateReference]? = some T ∧ T.prisonCode = v.prisonCode
  placed : ∀ v T, t.HasVisit v → v.isCancelled = false →
    t.templates[v.sessionTemplateReference]? = some T → around.now.date < v.date →
    v.visitRoom = T.visitRoom ∧ (T.occurrence v.date).window.contains v.window = true
  bound : ∀ reference T, t.templates[reference]? = some T → ∀ date r,
    (t.seated reference date r).card ≤ (T.capacity.seats r).toNat

variable {around : Surroundings}

theorem seated_of_no_visits (h : ∀ v, ¬t.HasVisit v) (hkeyed : t.Keyed) : t.Seated around where
  held := fun v hv => absurd hv (h v)
  template := fun v hv => absurd hv (h v)
  placed := fun v _ hv => absurd hv (h v)
  bound := by
    intro reference T _ date r
    have hnone : t.seated reference date r = ∅ := by
      refine Finset.eq_empty_of_forall_notMem fun x hx => ?_
      obtain ⟨v, hv, -⟩ := hkeyed.mem_seated.mp hx
      exact h v hv
    rw [hnone]
    exact Nat.zero_le _

/-- The first tables of a snapshot hold all visits and templates, or no visits. -/
theorem Seated.first (h : t.Seated around) (n : Nat) (hkeyed : t.Keyed) :
    (t.first n).Seated around := by
  by_cases hn : 4 ≤ n
  · have hvisits : (t.first n).visits = t.visits := if_pos hn
    have htemplates : (t.first n).templates = t.templates := if_pos (by omega)
    refine ⟨?_, ?_, ?_, ?_⟩
    all_goals simp only [HasVisit, seated, hvisits, htemplates]
    · exact h.held
    · exact h.template
    · exact h.placed
    · exact h.bound
  · have hnone : (t.first n).visits = ∅ := if_neg hn
    refine seated_of_no_visits (fun v hv => ?_) (hkeyed.first n)
    simp [HasVisit, hnone] at hv

/-- The visit lies in a session of its template, in the prison that holds the prisoner. -/
structure Lies (around : Surroundings) (t : Rows) (v : Visit) (T : SessionTemplate)
    (context : PrisonerContext) : Prop where
  template : t.templates[v.sessionTemplateReference]? = some T
  known : around.prisoners[v.prisonerId]? = some context
  held : context.prisonCode = v.prisonCode
  prison : T.prisonCode = v.prisonCode
  placed : v.visitRoom = T.visitRoom ∧ (T.occurrence v.date).window.contains v.window = true

/-- Every visit sits where one has been sitting, but for new ones in sessions of their templates. -/
theorem Seated.of_visits (h : t.Seated around) (htemplates : t'.templates = t.templates)
    (new : Visit → Prop) (hnew : ∀ v, new v → ∃ T context, t.Lies around v T context)
    (hothers : ∀ v, t'.HasVisit v → new v ∨ t.Stands v)
    (hbound : ∀ reference T, t.templates[reference]? = some T → ∀ date r,
      (t'.seated reference date r).card ≤ (T.capacity.seats r).toNat) : t'.Seated around where
  held := by
    intro v hv hlive
    rcases hothers v hv with hv | ⟨u, hu, hulive, hsits⟩
    · obtain ⟨T, context, hlies⟩ := hnew v hv
      exact ⟨context, hlies.known, hlies.held⟩
    · rw [hsits.prisoner, hsits.prison]
      exact h.held u hu (hulive hlive)
  template := by
    intro v hv hlive
    rw [htemplates]
    rcases hothers v hv with hv | ⟨u, hu, hulive, hsits⟩
    · obtain ⟨T, context, hlies⟩ := hnew v hv
      exact ⟨T, hlies.template, hlies.prison⟩
    · rw [hsits.template, hsits.prison]
      exact h.template u hu (hulive hlive)
  placed := by
    intro v S hv hlive hS hdate
    rw [htemplates] at hS
    rcases hothers v hv with hv | ⟨u, hu, hulive, hsits⟩
    · obtain ⟨T, context, hlies⟩ := hnew v hv
      cases hlies.template.symm.trans hS
      exact hlies.placed
    · have hsame : v.date = u.date := congrArg (·.start.date) hsits.window
      rw [hsame] at hdate ⊢
      rw [hsits.template] at hS
      rw [hsits.room, hsits.window]
      exact h.placed u S hu (hulive hlive) hS hdate
  bound := by
    rw [htemplates]
    exact hbound

theorem live_of_takesSeat {v : Visit} {template : Reference} {date : Date} {r : VisitRestriction}
    (h : v.takesSeat template date r = true) : v.isCancelled = false := by
  simp only [Visit.takesSeat, Bool.and_eq_true, Bool.not_eq_true'] at h
  exact h.1.1.1

/-- Nobody takes a seat that was not taken. -/
theorem Seated.of_stands (h : t.Seated around) (hkeyed : t.Keyed) (hkeyed' : t'.Keyed)
    (htemplates : t'.templates = t.templates)
    (hothers : ∀ v, t'.HasVisit v → t.Stands v) : t'.Seated around := by
  refine h.of_visits htemplates (fun _ => False) (fun _ => False.elim)
    (fun v hv => .inr (hothers v hv)) ?_
  intro reference T hT date r
  refine Nat.le_trans (Finset.card_le_card fun x hx => ?_) (h.bound reference T hT date r)
  obtain ⟨v, hv, hseat, hbooking⟩ := hkeyed'.mem_seated.mp hx
  obtain ⟨u, hu, hulive, hsits⟩ := hothers v hv
  exact hkeyed.mem_seated.mpr
    ⟨u, hu, hsits.takesSeat (hulive (live_of_takesSeat hseat)) hseat,
      hsits.booking.symm.trans hbooking⟩

/-- A slot is taken where a seat is left. -/
theorem Seated.taken (h : t.Seated around) (hkeyed : t.Keyed) (hkeyed' : t'.Keyed)
    (htemplates : t'.templates = t.templates) {w : Visit} {T : SessionTemplate}
    {context : PrisonerContext} (hlies : t.Lies around w T context)
    (hfree : ((t.seated w.sessionTemplateReference w.date w.restriction).erase w.reference).card <
      (T.capacity.seats w.restriction).toNat)
    (hothers : ∀ v, t'.HasVisit v → v = w ∨ t.Stands v) :
    t'.Seated around := by
  refine h.of_visits htemplates (· = w) ?_ hothers fun reference S hS date r => ?_
  · rintro v rfl
    exact ⟨T, context, hlies⟩
  -- only the new visit can bring a booking that was not there
  have hnew : ∀ x ∈ t'.seated reference date r, x ∈ t.seated reference date r ∨
      x = w.reference ∧ w.takesSeat reference date r = true := by
    intro x hx
    obtain ⟨v, hv, hseat, hbooking⟩ := hkeyed'.mem_seated.mp hx
    rcases hothers v hv with rfl | ⟨u, hu, hulive, hsits⟩
    · exact .inr ⟨hbooking.symm, hseat⟩
    · exact .inl (hkeyed.mem_seated.mpr
        ⟨u, hu, hsits.takesSeat (hulive (live_of_takesSeat hseat)) hseat,
          hsits.booking.symm.trans hbooking⟩)
  by_cases hseat : w.takesSeat reference date r = true
  · have hslot : w.sessionTemplateReference = reference ∧ w.date = date ∧ w.restriction = r := by
      simp only [Visit.takesSeat, Bool.and_eq_true, beq_iff_eq] at hseat
      exact ⟨hseat.1.1.2, hseat.1.2, hseat.2⟩
    obtain ⟨rfl, rfl, rfl⟩ := hslot
    cases hlies.template.symm.trans hS
    have hsub : t'.seated w.sessionTemplateReference w.date w.restriction ⊆ insert w.reference
        ((t.seated w.sessionTemplateReference w.date w.restriction).erase w.reference) := by
      intro x hx
      by_cases hx' : x = w.reference
      · rw [hx']
        exact Finset.mem_insert_self ..
      · rcases hnew x hx with hold | ⟨hown, -⟩
        · exact Finset.mem_insert_of_mem (Finset.mem_erase.mpr ⟨hx', hold⟩)
        · exact absurd hown hx'
    have hcard := Finset.card_le_card hsub
    have hinsert := Finset.card_insert_le w.reference
      ((t.seated w.sessionTemplateReference w.date w.restriction).erase w.reference)
    omega
  · refine Nat.le_trans (Finset.card_le_card fun x hx => ?_) (h.bound reference S hS date r)
    rcases hnew x hx with hold | ⟨-, htaken⟩
    · exact hold
    · exact absurd htaken hseat

/-- A template may change as long as the visits still to come lie in its sessions. -/
theorem Seated.templateSaved (h : t.Seated around) {T : SessionTemplate}
    (hvisits : ∀ v, t.HasVisit v → v.isCancelled = false →
      v.sessionTemplateReference = T.reference →
      T.prisonCode = v.prisonCode ∧ (around.now.date < v.date →
        v.visitRoom = T.visitRoom ∧ (T.occurrence v.date).window.contains v.window = true))
    (hbound : ∀ date r, (t.seated T.reference date r).card ≤ (T.capacity.seats r).toNat) :
    (t.apply (.templateSaved T)).Seated around where
  held := h.held
  template := by
    intro v hv hlive
    simp only [apply, getElem?_insert]
    by_cases hsame : T.reference = v.sessionTemplateReference
    · rw [if_pos hsame]
      exact ⟨T, rfl, (hvisits v hv hlive hsame.symm).1⟩
    · rw [if_neg hsame]
      exact h.template v hv hlive
  placed := by
    intro v S hv hlive hS hdate
    simp only [apply, getElem?_insert] at hS
    by_cases hsame : T.reference = v.sessionTemplateReference
    · rw [if_pos hsame] at hS
      cases hS
      exact (hvisits v hv hlive hsame.symm).2 hdate
    · rw [if_neg hsame] at hS
      exact h.placed v S hv hlive hS hdate
  bound := by
    intro reference S hS date r
    simp only [apply, getElem?_insert] at hS
    by_cases hsame : T.reference = reference
    · rw [if_pos hsame] at hS
      cases hS
      rw [← hsame]
      exact hbound date r
    · rw [if_neg hsame] at hS
      exact h.bound reference S hS date r

theorem Seated.templateDeleted (h : t.Seated around) {reference : Reference}
    (hunused : ∀ v, t.HasVisit v → v.isCancelled = false → v.sessionTemplateReference ≠ reference) :
    (t.apply (.templateDeleted reference)).Seated around where
  held := h.held
  template := by
    intro v hv hlive
    simp only [apply, getElem?_erase]
    rw [if_neg (fun hsame => hunused v hv hlive hsame.symm)]
    exact h.template v hv hlive
  placed := by
    intro v S hv hlive hS
    simp only [apply, getElem?_erase] at hS
    rw [if_neg (fun hsame => hunused v hv hlive hsame.symm)] at hS
    exact h.placed v S hv hlive hS
  bound := by
    intro other S hS
    simp only [apply, getElem?_erase] at hS
    split at hS
    · cases hS
    · exact h.bound other S hS

end Rows

/-! ## Holding a slot -/

theorem SessionLoad.taken_ofVisits (visits : List Visit) (r : VisitRestriction) :
    (SessionLoad.ofVisits visits).taken r = visits.countP fun v => v.restriction == r := by
  cases r <;> rfl

namespace Desk

variable {d : Desk}

/-- With a day's notice at least, a slot lies in the future. -/
theorem Admits.date_lt {context : PrisonerContext} {T : SessionTemplate} {slot : Slot}
    {bookingReference : Reference} (h : d.Admits context T slot bookingReference)
    (hnotice : 1 ≤ d.policy.minDays) : d.now.date < slot.date := by
  obtain ⟨earliest, latest, hwindow, hfirst, -⟩ := h.window
  unfold bookingWindow today Date.addDays? Date.ofDayNumber? at hwindow
  have hearliest : earliest.dayNumber = d.now.date.dayNumber + d.policy.minDays := by
    split at hwindow
    · next hfound _ =>
      cases hwindow
      split at hfound
      · rw [← Option.some.inj hfound]
      · cases hfound
    · cases hwindow
  have hle : earliest.dayNumber ≤ slot.date.dayNumber := hfirst
  change d.now.date.dayNumber < slot.date.dayNumber
  omega

/-- The seats that are counted against a booking are those of all other bookings. -/
theorem Admits.seat_left (hsound : d.store.Sound) (hseated : d.store.rows.Seated d.around)
    (hnotice : 1 ≤ d.policy.minDays) {context : PrisonerContext} {T : SessionTemplate} {slot : Slot}
    {bookingReference : Reference} (h : d.Admits context T slot bookingReference) :
    ((d.store.rows.seated slot.template slot.date slot.restriction).erase bookingReference).card <
      (T.capacity.seats slot.restriction).toNat := by
  have hseat := h.seat
  rw [takenBeside, SessionOccurrence.loadWithHolds, SessionLoad.taken_ofVisits,
    List.countP_eq_length_filter] at hseat
  refine Nat.lt_of_le_of_lt ?_ hseat
  rw [← List.length_map (f := Visit.reference)]
  refine Nat.le_trans (Finset.card_le_card fun x hx => ?_) (List.toFinset_card_le _)
  obtain ⟨hother, hx⟩ := Finset.mem_erase.mp hx
  obtain ⟨v, hv, htakes, rfl⟩ := hsound.keyed.mem_seated.mp hx
  have hlive := live_of_takesSeat htakes
  obtain ⟨htemplate, hdate, hrestriction⟩ : v.sessionTemplateReference = slot.template ∧
      v.date = slot.date ∧ v.restriction = slot.restriction := by
    simp only [Visit.takesSeat, Bool.and_eq_true, beq_iff_eq] at htakes
    exact ⟨htakes.1.1.2, htakes.1.2, htakes.2⟩
  have hT : d.store.rows.templates[v.sessionTemplateReference]? = some T := by
    rw [htemplate]
    exact h.template
  have hprison : T.prisonCode = v.prisonCode := by
    obtain ⟨S, hS, hprison⟩ := hseated.template v hv hlive
    cases hT.symm.trans hS
    exact hprison
  obtain ⟨hroom, hwindow⟩ := hseated.placed v T hv hlive hT (by rw [hdate]; exact h.date_lt hnotice)
  have hroomDay : v.roomDay = (T.occurrence slot.date).roomDay := by
    simp only [Visit.roomDay, SessionOccurrence.roomDay, SessionTemplate.occurrence, ← hprison,
      hroom, hdate]
  have hholds : (T.occurrence slot.date).holds v = true := by
    rw [hdate] at hwindow
    simp [SessionOccurrence.holds, SessionTemplate.occurrence, ← hprison, hroom] at hwindow ⊢
    exact hwindow
  refine List.mem_toFinset.mpr (List.mem_map.mpr ⟨v, ?_, rfl⟩)
  simp only [List.mem_filter, hsound.visitsInRoomDay_eq, hsound.mem_visits]
  refine ⟨⟨⟨hv, by simpa using hroomDay⟩, ?_⟩, by simpa using hrestriction⟩
  simpa [hlive, hholds] using fun heq => hother heq.symm

/-! ## Every action -/

/-- The clock does not go back, no prisoner is transferred, and no update lowers a capacity. -/
def KeepsSeats (d : Desk) : Action → Prop
  | .setClock now => d.now ≤ now
  | .setPrisoner context =>
    ∀ old, d.prisoners[context.prisonerId]? = some old → old.prisonCode = context.prisonCode
  | .updateTemplate reference draft =>
    ∀ T, d.store.template? reference = some T → ∀ r, T.capacity.seats r ≤ draft.capacity.seats r
  | _ => True

theorem seated_of_reseats (h : d.store.Linked) (hseated : d.store.rows.Seated d.around)
    (hnotice : 1 ≤ d.policy.minDays) {a : Action} {c : Commit} (hc : d.Reseats a c) :
    (d.store.rows.applyCommit c).Seated d.around := by
  have hkeyed := h.sound.keyed
  cases hc with
  | stays templates others => exact hseated.of_stands hkeyed (hkeyed.applyCommit c) templates others
  | @takes templates w T context slot takes others =>
    have hkey : T.reference = slot.template := hkeyed.templates _ T takes.admits.template
    have htemplate : w.sessionTemplateReference = slot.template := takes.template.trans hkey
    have hdate : w.date = slot.date := congrArg (·.start.date) takes.window
    have hprison : T.prisonCode = w.prisonCode := by
      rcases takes.prison with hsame |
        ⟨reference, m, existing, draft, -, -, hdrafted, -, hprison, hwho⟩
      · exact hsame.symm
      -- the draft is where the prisoner is held, and there the prisoner still is
      obtain ⟨hv, hdraft, -⟩ := h.sound.of_draft? hdrafted
      obtain ⟨context', hknown, hheld⟩ := hseated.held draft hv
        (Visit.isCancelled_of_isDraft hdraft)
      rw [← hwho] at hknown
      cases takes.known.symm.trans hknown
      rw [takes.admits.heldThere, hheld, hprison]
    refine hseated.taken hkeyed (hkeyed.applyCommit c) templates (w := w) (T := T) ⟨?_, takes.known,
      takes.admits.heldThere.symm.trans hprison, hprison, takes.room, ?_⟩ ?_ others
    · rw [htemplate]
      exact takes.admits.template
    · rw [hdate, takes.window]
      exact TimeWindow.contains_self _
    · rw [htemplate, hdate, takes.restriction]
      exact takes.admits.seat_left h.sound hseated hnotice

theorem seated_createTemplate (h : d.store.Sound) (hseated : d.store.rows.Seated d.around)
    {reference : Reference} (hunused : d.store.containsReference reference = false)
    (draft : TemplateDraft) :
    (d.store.rows.apply (.templateSaved (.ofDraft reference draft true))).Seated d.around := by
  have hnone : ∀ v, d.store.rows.HasVisit v → v.isCancelled = false →
      v.sessionTemplateReference ≠ reference := by
    rintro v hv hlive rfl
    obtain ⟨T, hT, -⟩ := hseated.template v hv hlive
    rw [(h.unused hunused).template] at hT
    cases hT
  have hempty : ∀ date r, d.store.rows.seated reference date r = ∅ := by
    refine fun date r => Finset.eq_empty_of_forall_notMem fun x hx => ?_
    obtain ⟨v, hv, htakes, -⟩ := h.keyed.mem_seated.mp hx
    refine hnone v hv (live_of_takesSeat htakes) ?_
    simp only [Visit.takesSeat, Bool.and_eq_true, beq_iff_eq] at htakes
    exact htakes.1.1.2
  refine hseated.templateSaved (fun v hv hlive hsame => absurd hsame (hnone v hv hlive))
    fun date r => ?_
  change (d.store.rows.seated reference date r).card ≤ (draft.capacity.seats r).toNat
  rw [hempty]
  exact Nat.zero_le _

/-- Visits that are stranded stop an update, so those still to come lie in the updated sessions. -/
theorem seated_updateTemplate (h : d.store.Sound) (hseated : d.store.rows.Seated d.around)
    {reference : Reference} {draft : TemplateDraft} {existing : SessionTemplate}
    (hstored : d.store.template? reference = some existing)
    (hprison : existing.prisonCode = draft.prisonCode)
    (hfits : ∀ v ∈ d.store.liveVisits reference d.now,
      (SessionTemplate.ofDraft existing.reference draft existing.active).fits v = true)
    (hraised : ∀ r, existing.capacity.seats r ≤ draft.capacity.seats r) :
    (d.store.rows.apply (.templateSaved (.ofDraft existing.reference draft existing.active))).Seated
      d.around := by
  have hkey : existing.reference = reference := h.keyed.templates reference existing hstored
  refine hseated.templateSaved (fun v hv hlive hsame => ?_) fun date r => ?_
  · have hown : v.sessionTemplateReference = reference := hsame.trans hkey
    refine ⟨?_, fun hdate => ?_⟩
    · obtain ⟨T, hT, hheld⟩ := hseated.template v hv hlive
      rw [hown] at hT
      cases hstored.symm.trans hT
      exact hprison.symm.trans hheld
    · have hmem : v ∈ d.store.liveVisits reference d.now := by
        unfold Store.liveVisits
        refine List.mem_filter.mpr ⟨h.mem_visitsForTemplate.mpr ⟨hv, hown⟩, ?_⟩
        rw [hlive]
        exact decide_eq_true (.inl hdate)
      have hsits := hfits v hmem
      simp only [SessionTemplate.fits, Bool.and_eq_true, beq_iff_eq] at hsits
      exact ⟨hsits.1.2, hsits.2⟩
  · have hbound := hseated.bound reference existing hstored date r
    have hle := UInt32.le_iff_toNat_le.mp (hraised r)
    change (d.store.rows.seated existing.reference date r).card ≤ (draft.capacity.seats r).toNat
    rw [hkey]
    omega

theorem seated_setTemplateActive (h : d.store.Sound) (hseated : d.store.rows.Seated d.around)
    {reference : Reference} {template : SessionTemplate}
    (hstored : d.store.template? reference = some template) (active : Bool) :
    (d.store.rows.apply (.templateSaved { template with active })).Seated d.around := by
  have hkey : template.reference = reference := h.keyed.templates reference template hstored
  refine hseated.templateSaved (fun v hv hlive hsame => ?_) fun date r => ?_
  · have hown : d.store.rows.templates[v.sessionTemplateReference]? = some template := by
      rw [hsame.trans hkey]
      exact hstored
    obtain ⟨T, hT, hheld⟩ := hseated.template v hv hlive
    cases hown.symm.trans hT
    exact ⟨hheld, fun hdate => hseated.placed v template hv hlive hown hdate⟩
  · change (d.store.rows.seated template.reference date r).card ≤ (template.capacity.seats r).toNat
    rw [hkey]
    exact hseated.bound reference template hstored date r

theorem seated_deleteTemplate (h : d.store.Sound) (hseated : d.store.rows.Seated d.around)
    {reference : Reference} (hunused : d.store.visitsForTemplate reference = []) :
    (d.store.rows.apply (.templateDeleted reference)).Seated d.around := by
  refine hseated.templateDeleted fun v hv _ hsame => ?_
  have hmem := h.mem_visitsForTemplate.mpr ⟨hv, hsame⟩
  rw [hunused] at hmem
  cases hmem

/-- What an action commits overbooks no session. -/
theorem seated_of_writes (h : d.store.Linked) (hseated : d.store.rows.Seated d.around)
    (hnotice : 1 ≤ d.policy.minDays) {a : Action} {c : Commit} (hkeeps : d.KeepsSeats a)
    (hw : d.Writes a c) : (d.store.rows.applyCommit c).Seated d.around := by
  cases hedits : a.editsTemplates with
  | false => exact seated_of_reseats h hseated hnotice (reseats_of_writes h hw hedits)
  | true =>
    cases hw with
    | createTemplate checked room unused compared =>
      exact seated_createTemplate h.sound hseated unused _
    | updateTemplate checked stored prison fits compared =>
      exact seated_updateTemplate h.sound hseated stored prison fits (hkeeps _ stored)
    | setTemplateActive stored turned idle =>
      exact seated_setTemplateActive h.sound hseated stored _
    | deleteTemplate stored inactive unused => exact seated_deleteTemplate h.sound hseated unused
    | createGroup | updateGroup | deleteGroup | reserve | change | amend | book | cancel | discard
    | expire => cases hedits

/-! ## Runs -/

theorem seated_turned {t : Rows} (h : t.Seated d.around) {a : Action} (hturns : a.turns = true)
    (hkeeps : d.KeepsSeats a) : t.Seated (d.perform a).around := by
  cases a with
  | setClock now =>
    have hkeeps : d.now ≤ now := hkeeps
    refine { h with placed := fun v T hv hlive hT hdate => h.placed v T hv hlive hT ?_ }
    exact (Moment.date_le hkeeps).trans_lt hdate
  | setPrisoner context =>
    refine { h with held := fun v hv hlive => ?_ }
    obtain ⟨old, hknown, hheld⟩ := h.held v hv hlive
    change ∃ found, (d.prisoners.insert context.prisonerId context)[v.prisonerId]? = some found ∧ _
    rw [getElem?_insert]
    by_cases hsame : context.prisonerId = v.prisonerId
    · rw [if_pos hsame]
      rw [← hsame] at hknown
      exact ⟨context, rfl, (hkeeps old hknown).symm.trans hheld⟩
    · rw [if_neg hsame]
      exact ⟨old, hknown, hheld⟩
  | _ => cases hturns

theorem preserved_seated : Preserved False KeepsSeats
    (fun around t => 1 ≤ around.policy.minDays → t.Seated around)
    (fun around commits => 1 ≤ around.policy.minDays →
      (Store.ofCommits commits).rows.Seated around) := by
  refine preserved_of_rows (fun _ => trivial) (fun around _ => ?_) ?_ ?_ ?_
  · exact seated_of_no_visits not_hasVisit_empty keyed_empty
  · exact fun h hseated hkeeps hw hnotice => seated_of_writes h (hseated hnotice) hnotice hkeeps hw
  · exact fun hkeyed hseated _ hnotice => (hseated hnotice).first _ hkeyed
  · intro d a t hturns hkeeps hseated hnotice
    have hpolicy : (d.perform a).around.policy = d.around.policy := policy_perform d a
    rw [hpolicy] at hnotice
    exact seated_turned (hseated hnotice) hturns hkeeps

end Desk

/-- The bookings that have a visit, not cancelled, of a template on a date under a restriction. -/
def Store.seated (s : Store) (template : Reference) (date : Date) (r : VisitRestriction) :
    Finset Reference :=
  s.rows.seated template date r

/-- Along any run from an empty journal in which the clock does not go back, no prisoner is
transferred and no update lowers a capacity, no session has more bookings than seats. -/
theorem seated_card_le_capacity (policy : BookingPolicy) (now : Moment)
    (prisoners : Std.ExtTreeMap String PrisonerContext) (references : ReferenceSource)
    (hnotice : 1 ≤ policy.minDays) (actions : List Action)
    (hrange : (Desk.openOn #[] policy now prisoners references).Throughout Desk.InRange actions)
    (hkeeps : (Desk.openOn #[] policy now prisoners references).Along
      (fun d a => d.Accepts a → d.KeepsSeats a) actions)
    (reference : Reference) (template : SessionTemplate)
    (hstored : ((Desk.openOn #[] policy now prisoners references).run
      actions).store.template? reference = some template) (date : Date) (r : VisitRestriction) :
    (((Desk.openOn #[] policy now prisoners references).run
      actions).store.seated reference date r).card ≤
      (template.capacity.seats r).toNat := by
  have hkept := (Desk.kept_openOn Desk.preserved_seated policy now prisoners references).run
    Desk.preserved_seated hrange False.elim hkeeps |>.last
  have hpolicy := Desk.policy_run (Desk.openOn #[] policy now prisoners references) actions
  have hlive := hkept.live (by rw [Desk.around, hpolicy]; exact hnotice)
  exact hlive.bound reference template hstored date r

theorem seated_card_le_capacity_sample :
    ((Sample.desk.run Sample.actions).store.seated "a" Sample.monday .openVisit).card = 1 ∧
      ((Sample.desk.run Sample.actions).store.seated "a" Sample.monday .openVisit).card ≤
        (Sample.mondays.capacity.seats .openVisit).toNat := by
  have hkeeps : Sample.desk.Along (fun d a => d.Accepts a → d.KeepsSeats a) Sample.actions := by
    refine ⟨fun _ => trivial, fun _ old hold => ?_, fun _ => trivial, trivial⟩
    have hnone : (Sample.desk.perform (.createTemplate Sample.mondays)).prisoners["A0001AA"]? =
      none := by
      decide +kernel
    rw [hnone] at hold
    cases hold
  have hstored : (Sample.desk.run Sample.actions).store.template? "a" =
      some (.ofDraft "a" Sample.mondays true) := by decide +kernel
  exact ⟨by decide +kernel, seated_card_le_capacity Sample.policy _ _ Sample.letters (by decide)
    Sample.actions Sample.inRange_actions hkeeps "a" _ hstored Sample.monday .openVisit⟩

end PrisonVisits
