import PrisonVisits.Proofs.CommittedLinks

/-! # Who sits where after an action

Apart from edits of templates, an action leaves the templates as they are and every visit where one
was before, or it takes a slot that it has held: one visit then lies in a session of the slot's
template. -/

namespace PrisonVisits

open Rows

/-- The visit stands where another one stood, for the same booking and prisoner. -/
structure Visit.SitsAs (v w : Visit) : Prop where
  booking : v.reference = w.reference
  prison : v.prisonCode = w.prisonCode
  prisoner : v.prisonerId = w.prisonerId
  template : v.sessionTemplateReference = w.sessionTemplateReference
  room : v.visitRoom = w.visitRoom
  window : v.window = w.window
  restriction : v.restriction = w.restriction

theorem Visit.SitsAs.refl (v : Visit) : v.SitsAs v := by
  constructor <;> rfl

theorem Visit.isCancelled_of_isDraft {v : Visit} (h : v.isDraft = true) :
    v.isCancelled = false := by
  unfold isDraft at h
  unfold isCancelled
  cases hs : v.status <;> simp_all

/-- A visit sits where this one does, and is not cancelled before it. -/
def Rows.Stands (t : Rows) (v : Visit) : Prop :=
  ∃ w, t.HasVisit w ∧ (v.isCancelled = false → w.isCancelled = false) ∧ v.SitsAs w

theorem Rows.HasVisit.stands {t : Rows} {v : Visit} (h : t.HasVisit v) : t.Stands v :=
  ⟨v, h, id, .refl v⟩

/-- The record edits the templates. -/
def Record.touchesTemplate : Record → Bool
  | templateSaved _ | templateDeleted _ => true
  | _ => false

theorem Rows.templates_applyCommit {t : Rows} {c : Commit}
    (h : ∀ r ∈ c, r.touchesTemplate = false) :
    (t.applyCommit c).templates = t.templates := by
  induction c generalizing t with
  | nil => rfl
  | cons r c ih =>
    obtain ⟨hr, hrest⟩ := List.forall_mem_cons.mp h
    refine (ih (t := t.apply r) hrest).trans ?_
    cases r with
    | groupSaved | groupDeleted | applicationSaved | applicationDeleted | visitSaved | visitDeleted
    | audit => rfl
    | templateSaved | templateDeleted => cases hr

/-- The action edits templates. -/
def Action.editsTemplates : Action → Bool
  | .createTemplate _ | .updateTemplate .. | .setTemplateActive .. | .deleteTemplate _ => true
  | _ => false

/-- The record is about bookings. -/
def Record.ofBooking : Record → Bool
  | groupSaved _ | groupDeleted _ | templateSaved _ | templateDeleted _ => false
  | _ => true

theorem Record.no_template_of_ofBooking {r : Record} (h : r.ofBooking = true) :
    r.touchesTemplate = false := by
  cases r <;> first | rfl | cases h

/-- The record may be one of those that end a booking: it saves no application. -/
def Record.endsBooking : Record → Bool
  | applicationDeleted _ | visitSaved _ | visitDeleted _ | audit _ => true
  | _ => false

theorem Record.ofBooking_of_ends {r : Record} (h : r.endsBooking = true) : r.ofBooking = true := by
  cases r <;> first | rfl | cases h

theorem Rows.groups_applyCommit {t : Rows} {c : Commit} (h : ∀ r ∈ c, r.ofBooking = true) :
    (t.applyCommit c).groups = t.groups := by
  induction c generalizing t with
  | nil => rfl
  | cons r c ih =>
    obtain ⟨hr, hrest⟩ := List.forall_mem_cons.mp h
    refine (ih (t := t.apply r) hrest).trans ?_
    cases r with
    | applicationSaved | applicationDeleted | visitSaved | visitDeleted | audit => rfl
    | groupSaved | groupDeleted | templateSaved | templateDeleted => cases hr

/-- The action edits groups or templates. -/
def Action.administers : Action → Bool
  | .createGroup .. | .updateGroup .. | .deleteGroup _ => true
  | a => a.editsTemplates

namespace Desk

/-- The visit lies in the slot that was held for it. -/
structure Takes (d : Desk) (a : Action) (w : Visit) (T : SessionTemplate)
    (context : PrisonerContext) (slot : Slot) : Prop where
  known : d.prisoners[w.prisonerId]? = some context
  admits : d.Admits context T slot w.reference
  template : w.sessionTemplateReference = T.reference
  room : w.visitRoom = T.visitRoom
  window : w.window = .onDate slot.date T.startTime T.endTime
  restriction : w.restriction = slot.restriction
  /-- An amendment leaves the prison of the draft. -/
  prison : w.prisonCode = T.prisonCode ∨ ∃ reference m existing draft,
    a = .amend reference m ∧ d.store.application? reference = some existing ∧
      d.store.draft? reference = some draft ∧ amendedSlot existing m ≠
        ⟨existing.sessionTemplateReference, existing.sessionDate, existing.restriction⟩ ∧
      w.prisonCode = draft.prisonCode ∧ w.prisonerId = draft.prisonerId

/-- What a commit does to seats. -/
inductive Reseats (d : Desk) (a : Action) (c : Commit) : Prop
  | stays (templates : (d.store.rows.applyCommit c).templates = d.store.rows.templates)
      (others : ∀ v, (d.store.rows.applyCommit c).HasVisit v → d.store.rows.Stands v)
  | takes (templates : (d.store.rows.applyCommit c).templates = d.store.rows.templates)
      {w : Visit} {T : SessionTemplate} {context : PrisonerContext} {slot : Slot}
      (takes : d.Takes a w T context slot)
      (others : ∀ v, (d.store.rows.applyCommit c).HasVisit v → v = w ∨ d.store.rows.Stands v)

variable {d : Desk}

theorem Reseats.of_saved {a : Action} {c : Commit}
    (htemplates : ∀ r ∈ c, r.touchesTemplate = false)
    (hsaved : ∀ v, .visitSaved v ∈ c → d.store.rows.Stands v) : d.Reseats a c :=
  .stays (templates_applyCommit htemplates) fun _ hv =>
    hasVisit_applyCommit (fun _ hw => hw.stands) hsaved hv

theorem Reseats.of_taken {a : Action} {c : Commit} (htemplates : ∀ r ∈ c, r.touchesTemplate = false)
    {w : Visit} (hsaved : ∀ v, .visitSaved v ∈ c → v = w) {T : SessionTemplate}
    {context : PrisonerContext} {slot : Slot} (htakes : d.Takes a w T context slot) :
    d.Reseats a c :=
  .takes (templates_applyCommit htemplates) htakes fun _ hv =>
    hasVisit_applyCommit (q := fun v => v = w ∨ d.store.rows.Stands v) (fun _ hx => .inr hx.stands)
      (fun v hx => .inl (hsaved v hx)) hv

/-! ## Every action -/

theorem ends_discardRecords (a : Application) (draft : Option Visit) (actionedBy : String)
    (now : Moment) : ∀ r ∈ a.discardRecords draft actionedBy now, r.endsBooking = true := by
  intro r hr
  unfold Application.discardRecords at hr
  cases hdraft : draft.filter Visit.isDraft <;>
    (simp [hdraft, Application.audit] at hr; rcases hr with rfl | rfl | rfl) <;> rfl

theorem ends_discardPending (d : Desk) (pending : Visit) (actionedBy : String) :
    ∀ r ∈ d.discardPending pending actionedBy, r.endsBooking = true := by
  unfold discardPending
  split
  · next a _ => exact ends_discardRecords a _ _ _
  · intro r hr
    rw [List.mem_singleton.mp hr]
    rfl

theorem ends_cancelRecords (d : Desk) (rows : List Visit) (target : Visit)
    (c : Cancellation) : ∀ r ∈ d.cancelRecords rows target c, r.endsBooking = true := by
  intro r hr
  unfold cancelRecords at hr
  simp only [List.mem_append, List.mem_cons] at hr
  rcases hr with (rfl | hr) | rfl | hr
  · rfl
  · split at hr
    · rw [List.mem_singleton.mp hr]
      rfl
    · cases hr
  · rfl
  · obtain ⟨v, -, hr⟩ := List.mem_flatMap.mp hr
    exact ends_discardPending d v _ r hr

theorem ends_supersede (booked : Option Visit) (actionedBy : String) (now : Moment) :
    ∀ r ∈ booked.toList.flatMap (supersedeRecords · actionedBy now), r.endsBooking = true := by
  intro r hr
  obtain ⟨old, -, hr⟩ := List.mem_flatMap.mp hr
  simp only [supersedeRecords, List.mem_cons, List.not_mem_nil, or_false] at hr
  rcases hr with rfl | rfl <;> rfl

/-- What is not administration writes about bookings only. -/
theorem ofBooking_of_writes {a : Action} {c : Commit} (hw : d.Writes a c)
    (ha : a.administers = false) : ∀ r ∈ c, r.ofBooking = true := by
  cases hw with
  | createGroup | updateGroup | deleteGroup | createTemplate | updateTemplate
  | setTemplateActive | deleteTemplate => cases ha
  | reserve | change | amend =>
    simp [start, Application.audit, Record.ofBooking]
  | @book reference actionedBy existing draft =>
    have hends := ends_supersede (d.store.bookedVisit? existing.bookingReference) actionedBy d.now
    refine List.forall_mem_append.mpr ⟨fun r hr => r.ofBooking_of_ends (hends r hr), ?_⟩
    simp [Application.bookedAudit, Record.ofBooking]
  | cancel => exact fun r hr => r.ofBooking_of_ends (ends_cancelRecords d _ _ _ r hr)
  | discard | expire => exact fun r hr => r.ofBooking_of_ends (ends_discardRecords _ _ _ _ r hr)

theorem no_template_of_writes {a : Action} {c : Commit} (hw : d.Writes a c)
    (ha : a.editsTemplates = false) : ∀ r ∈ c, r.touchesTemplate = false := by
  cases hgroups : a.administers with
  | false => exact fun r hr => r.no_template_of_ofBooking (ofBooking_of_writes hw hgroups r hr)
  | true =>
    cases hw with
    | createGroup | updateGroup | deleteGroup => simp [Record.touchesTemplate]
    | createTemplate | updateTemplate | setTemplateActive | deleteTemplate => cases ha
    | reserve | change | amend | book | cancel | discard | expire => cases hgroups

/-- An amendment puts the draft into the slot asked for, or leaves it where it is. -/
theorem reseats_amend (h : d.store.Linked) {reference : Reference} {m : Amendment}
    {existing placed : Application} {draft moved : Visit}
    (hstored : d.store.application? reference = some existing)
    (hdrafted : d.store.draft? reference = some draft)
    (hplaced : d.placeAmended (m.people existing) draft (amendedSlot existing m) =
      .ok (placed, moved)) :
    d.Reseats (.amend reference m) [.applicationSaved (placed.touched d.now),
      .visitSaved ((placed.touched d.now).bring moved d.now),
      (placed.touched d.now).audit .amendedApplication m.actionedBy d.now] := by
  have htemplates : ∀ r ∈ [.applicationSaved (placed.touched d.now),
      .visitSaved ((placed.touched d.now).bring moved d.now),
      (placed.touched d.now).audit .amendedApplication m.actionedBy d.now],
      r.touchesTemplate = false := by
    simp [Record.touchesTemplate, Application.audit]
  obtain ⟨hv, hdraft, -⟩ := h.sound.of_draft? hdrafted
  have hdrafts := h.drafts hstored hdrafted
  rcases placeAmended_eq_ok hplaced with ⟨-, rfl, rfl⟩ |
    ⟨hmoves, context, T, hknown, hadmits, rfl, rfl⟩
  · refine .of_saved htemplates fun v hsaved => ?_
    cases saved_of_amend hsaved
    exact ⟨moved, hv, fun _ => Visit.isCancelled_of_isDraft hdraft, by constructor <;> rfl⟩
  · have hknown : d.prisoners[draft.prisonerId]? = some context := by
      rw [hdrafts.prisoner]
      exact hknown
    have hadmits : d.Admits context T (amendedSlot existing m) draft.reference := by
      rw [hdrafts.booking]
      exact hadmits
    exact .of_taken htemplates (fun _ hsaved => saved_of_amend hsaved)
      ⟨hknown, hadmits, rfl, rfl, rfl, rfl,
        .inr ⟨reference, m, existing, draft, rfl, hstored, hdrafted, hmoves, rfl, rfl⟩⟩

/-- What an action that edits no templates does to seats. -/
theorem reseats_of_writes (h : d.store.Linked) {a : Action} {c : Commit} (hw : d.Writes a c)
    (ha : a.editsTemplates = false) : d.Reseats a c := by
  have htemplates := no_template_of_writes hw ha
  cases hw with
  | createTemplate | updateTemplate | setTemplateActive | deleteTemplate => cases ha
  | createGroup | updateGroup | deleteGroup => exact .of_saved htemplates (by simp)
  | @reserve r bookingReference reference context T counts booking known admits unused =>
    exact .of_taken htemplates (fun _ hv => saved_of_start hv)
      ⟨known, admits, rfl, rfl, rfl, rfl, .inl rfl⟩
  | @change r reference booked context T counts found known admits unused =>
    exact .of_taken htemplates (fun _ hv => saved_of_start hv)
      ⟨known, admits, rfl, rfl, rfl, rfl, .inl rfl⟩
  | amend stored incomplete drafted counts placing => exact reseats_amend h stored drafted placing
  | @book reference actionedBy existing draft stored incomplete bookable drafted left applies =>
    obtain ⟨hv, hdraft, -⟩ := h.sound.of_draft? drafted
    refine .of_saved htemplates fun v hsaved => ?_
    rcases List.mem_append.mp hsaved with hsaved | hsaved
    · obtain ⟨old, hold, hsaved⟩ := List.mem_flatMap.mp hsaved
      have hsame : v = superseded old d.now := by
        simpa [supersedeRecords, Visit.cancelledAudit] using hsaved
      subst hsame
      have hrow := (h.sound.of_bookedVisit? (Option.mem_toList.mp hold)).1
      exact ⟨old, hrow, (fun hlive => by cases hlive), by constructor <;> rfl⟩
    · have hsame : v = existing.booked draft d.now := by
        simpa [Application.bookedAudit] using hsaved
      subst hsame
      exact ⟨draft, hv, fun _ => Visit.isCancelled_of_isDraft hdraft, by constructor <;> rfl⟩
  | @cancel bookingReference c target outcome short live =>
    have htarget := (h.sound.of_cancellationTarget live).1
    refine .of_saved htemplates fun v hsaved => ?_
    obtain ⟨audit, hrecords⟩ := cancelRecords_eq h _ htarget c
    rw [hrecords] at hsaved
    rcases List.mem_cons.mp hsaved with hsaved | hsaved
    · cases hsaved
      exact ⟨target, htarget, (fun hlive => by cases hlive), by constructor <;> rfl⟩
    · exact absurd hsaved (no_visit_behind_target d _ _ _ _ v)
  | discard | expire =>
    exact .of_saved htemplates fun v hsaved => absurd hsaved (no_visit_discardRecords _ _ _ _ v)

end Desk

end PrisonVisits
