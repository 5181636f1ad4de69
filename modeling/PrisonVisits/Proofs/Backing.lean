import PrisonVisits.Proofs.CommittedLinks

/-! # Every application is backed by a visit

An incomplete application has its draft, and a completed one the visit that was booked for it, which
is never deleted. Each is for the application's template, in the application's prison. -/

namespace PrisonVisits

open Rows Table

/-- The visit is the application's draft or what became of it, in the application's place. -/
structure Application.BackedBy (a : Application) (v : Visit) : Prop where
  template : v.sessionTemplateReference = a.sessionTemplateReference
  prison : v.prisonCode = a.prisonCode
  draft : v.isDraft = !a.completed
  own : a.completed = false → v.applicationReference = a.reference

theorem Application.Drafts.backedBy {a : Application} {v : Visit} (h : a.Drafts v)
    (hopen : a.completed = false) : a.BackedBy v where
  template := h.template
  prison := h.prison
  draft := by
    rw [h.isDraft, hopen]
    rfl
  own := fun _ => h.application

namespace Rows

/-- Every application is backed by a visit. -/
def Backed (t : Rows) : Prop :=
  ∀ (reference : Reference) (a : Application), t.applications[reference]? = some a →
    ∃ v, t.HasVisit v ∧ a.BackedBy v

variable {t : Rows}

/-! ## What a commit leaves alone -/

theorem hasVisit_of_untouched {c : Commit} {v : Visit} (hv : t.HasVisit v)
    (hsaved : ∀ w, .visitSaved w ∈ c → w.id ≠ v.id) (hdeleted : .visitDeleted v.id ∉ c) :
    (t.applyCommit c).HasVisit v := by
  induction c generalizing t with
  | nil => exact hv
  | cons r c ih =>
    refine ih (t := t.apply r) ?_ (fun w hw => hsaved w (List.mem_cons_of_mem _ hw))
      (fun hmem => hdeleted (List.mem_cons_of_mem _ hmem))
    cases r with
    | groupSaved | groupDeleted | templateSaved | templateDeleted | applicationSaved
    | applicationDeleted | audit => exact hv
    | visitSaved w =>
      exact hasVisit_visitSaved.mpr (.inr ⟨fun hid => hsaved w List.mem_cons_self hid.symm, hv⟩)
    | visitDeleted id =>
      refine hasVisit_visitDeleted.mpr ⟨fun hid => hdeleted ?_, hv⟩
      rw [hid]
      exact List.mem_cons_self

/-- The record saves or deletes the application. -/
def touchesApplication (reference : Reference) : Record → Prop
  | .applicationSaved a => a.reference = reference
  | .applicationDeleted other => other = reference
  | _ => False

/-- An application that is stored after a commit was saved by it, or it was stored before and the
commit does not touch it. -/
theorem application_of_applyCommit {c : Commit} {reference : Reference} {a : Application}
    (ha : (t.applyCommit c).applications[reference]? = some a) :
    (.applicationSaved a ∈ c ∧ a.reference = reference) ∨
      t.applications[reference]? = some a ∧ ∀ r ∈ c, ¬touchesApplication reference r := by
  induction c generalizing t with
  | nil => exact .inr ⟨ha, by simp⟩
  | cons r c ih =>
    rcases ih ha with ⟨hmem, hkey⟩ | ⟨hstored, hkept⟩
    · exact .inl ⟨List.mem_cons_of_mem _ hmem, hkey⟩
    cases r with
    | groupSaved | groupDeleted | templateSaved | templateDeleted | visitSaved | visitDeleted
    | audit => exact .inr ⟨hstored, List.forall_mem_cons.mpr ⟨not_false, hkept⟩⟩
    | applicationSaved b =>
      simp only [apply, getElem?_insert] at hstored
      by_cases hkey : b.reference = reference
      · rw [if_pos hkey] at hstored
        cases hstored
        exact .inl ⟨List.mem_cons_self, hkey⟩
      · rw [if_neg hkey] at hstored
        exact .inr ⟨hstored, List.forall_mem_cons.mpr ⟨hkey, hkept⟩⟩
    | applicationDeleted other =>
      simp only [apply, getElem?_erase] at hstored
      by_cases hkey : other = reference
      · rw [if_pos hkey] at hstored
        cases hstored
      · rw [if_neg hkey] at hstored
        exact .inr ⟨hstored, List.forall_mem_cons.mpr ⟨hkey, hkept⟩⟩

/-- Applications stay backed if those that a commit saves are, and if visits back the others that
were backed before. -/
theorem Backed.applyCommit (h : t.Backed) {c : Commit}
    (hsaved : ∀ a, .applicationSaved a ∈ c → ∃ v, (t.applyCommit c).HasVisit v ∧ a.BackedBy v)
    (hothers : ∀ (a : Application) v, t.applications[a.reference]? = some a → t.HasVisit v →
      a.BackedBy v → (∀ r ∈ c, ¬touchesApplication a.reference r) →
      ∃ w, (t.applyCommit c).HasVisit w ∧ a.BackedBy w) (hkeyed : t.Keyed) :
    (t.applyCommit c).Backed := by
  intro reference a ha
  rcases application_of_applyCommit ha with ⟨hmem, -⟩ | ⟨hstored, hkept⟩
  · exact hsaved a hmem
  · obtain ⟨v, hv, hbacked⟩ := h reference a hstored
    have hkey : a.reference = reference := hkeyed.applications reference a hstored
    rw [← hkey] at hstored hkept
    exact hothers a v hstored hv hbacked hkept

end Rows

/-! ## One lemma for each kind of commit -/

theorem Application.BackedBy.own_of_isDraft {a : Application} {v : Visit} (h : a.BackedBy v)
    (hdraft : v.isDraft = true) : v.applicationReference = a.reference := by
  refine h.own ?_
  have hsame := h.draft
  rw [hdraft] at hsame
  simpa using hsame.symm

/-- A settled state of a settled visit backs what the visit backs. -/
theorem Application.BackedBy.settled {a : Application} {v w : Visit} (h : a.BackedBy v)
    (hv : v.isDraft = false) (hw : w.isDraft = false)
    (htemplate : w.sessionTemplateReference = v.sessionTemplateReference)
    (hprison : w.prisonCode = v.prisonCode) : a.BackedBy w where
  template := htemplate.trans h.template
  prison := hprison.trans h.prison
  draft := by rw [hw, ← hv, h.draft]
  own := by
    intro hopen
    have hdraft := h.draft
    rw [hv, hopen] at hdraft
    cases hdraft

namespace Desk

variable {d : Desk}

theorem backed_start (h : d.store.Linked) (hb : d.store.rows.Backed) {a : Application}
    {o : SessionOccurrence} (hopen : a.completed = false)
    (hdrafts : a.Drafts (a.draftVisit d.store.nextVisitId o d.now)) :
    (d.store.rows.applyCommit (d.start a o).records).Backed := by
  refine hb.applyCommit (fun b hmem => ?_) (fun b v _ hv hbacked _ => ⟨v, ?_, hbacked⟩)
    h.sound.keyed
  · have hsame : b = a := by simpa [start, Application.audit] using hmem
    rw [hsame]
    exact ⟨_, hasVisit_visitSaved.mpr (.inl rfl), hdrafts.backedBy hopen⟩
  · refine hasVisit_of_untouched hv (fun w hw hid => ?_) (by simp [start, Application.audit])
    have hnew : w.id = d.store.nextVisitId := by
      have hsame : w = a.draftVisit d.store.nextVisitId o d.now := by
        simpa [start, Application.audit] using hw
      rw [hsame]
      rfl
    have hbelow := h.below v hv
    rw [← hid, hnew] at hbelow
    exact UInt64.lt_irrefl _ hbelow

theorem backed_amend (h : d.store.Linked) (hb : d.store.rows.Backed) {reference : Reference}
    {m : Amendment} {existing placed : Application} {draft moved : Visit}
    (hstored : d.store.application? reference = some existing) (hopen : existing.completed = false)
    (hdrafted : d.store.draft? reference = some draft)
    (hplaced : d.placeAmended (m.people existing) draft (amendedSlot existing m) =
      .ok (placed, moved)) :
    (d.store.rows.applyCommit [.applicationSaved (placed.touched d.now),
      .visitSaved ((placed.touched d.now).bring moved d.now),
      (placed.touched d.now).audit .amendedApplication m.actionedBy d.now]).Backed := by
  obtain ⟨hrow, hdraft, -⟩ := h.sound.of_draft? hdrafted
  have hdrafts := drafts_of_placeAmended (h.drafts hstored hdrafted) hplaced
  have hsame := sameRows_of_placeAmended hplaced
  refine hb.applyCommit (fun b hmem => ?_) (fun b v _ hv hbacked hkept => ⟨v, ?_, hbacked⟩)
    h.sound.keyed
  · have hplacement : b = placed.touched d.now := by simpa [Application.audit] using hmem
    rw [hplacement]
    exact ⟨_, hasVisit_visitSaved.mpr (.inl rfl), hdrafts.backedBy (hsame.completed.trans hopen)⟩
  · refine hasVisit_of_untouched hv (fun w hw hid => ?_) (by simp [Application.audit])
    have hmoved : w = (placed.touched d.now).bring moved d.now := by
      simpa [Application.audit] using hw
    -- the draft backs its own application only
    have hown : v = draft := hv.unique hrow (by rw [← hid, hmoved]; exact hsame.id)
    have hreference := hbacked.own_of_isDraft (by rw [hown]; exact hdraft)
    refine hkept _ List.mem_cons_self ?_
    change (placed.touched d.now).reference = b.reference
    rw [← hreference, hown, ← hsame.application]
    exact hdrafts.application.symm

theorem backed_book (h : d.store.Linked) (hb : d.store.rows.Backed) {reference : Reference}
    {existing : Application} {draft : Visit}
    (hstored : d.store.application? reference = some existing)
    (hdrafted : d.store.draft? reference = some draft) (actionedBy : String) :
    (d.store.rows.applyCommit
      ((d.store.bookedVisit? existing.bookingReference).toList.flatMap
          (supersedeRecords · actionedBy d.now) ++
        [.visitSaved (existing.booked draft d.now), .applicationSaved (existing.complete d.now),
          existing.bookedAudit (existing.booked draft d.now) actionedBy d.now])).Backed := by
  obtain ⟨hrow, hdraft, happlication⟩ := h.sound.of_draft? hdrafted
  have hdrafts := h.drafts hstored hdrafted
  refine hb.applyCommit (fun b hmem => ?_) (fun b v _ hv hbacked hkept => ?_) h.sound.keyed
  · have hsame : b = existing.complete d.now := by
      simpa [supersedeRecords, Visit.cancelledAudit, Application.bookedAudit] using hmem
    rw [hsame, applyCommit_append]
    exact ⟨_, hasVisit_visitSaved.mpr (.inl rfl), hdrafts.template, hdrafts.prison, rfl,
      fun hopen => by cases hopen⟩
  · have hother : v.id ≠ draft.id := by
      intro hid
      have hown : v = draft := hv.unique hrow hid
      refine hkept (.applicationSaved (existing.complete d.now)) (by simp) ?_
      change existing.reference = b.reference
      rw [← hdrafts.application, ← hown]
      exact hbacked.own_of_isDraft (by rw [hown]; exact hdraft)
    rw [applyCommit_append]
    suffices hleft : ∃ w, (d.store.rows.applyCommit
        ((d.store.bookedVisit? existing.bookingReference).toList.flatMap
          (supersedeRecords · actionedBy d.now))).HasVisit w ∧ b.BackedBy w ∧ w.id ≠ draft.id by
      obtain ⟨w, hw, hbacks, hne⟩ := hleft
      exact ⟨w, hasVisit_visitSaved.mpr (.inr ⟨hne, hw⟩), hbacks⟩
    cases hold : d.store.bookedVisit? existing.bookingReference with
    | none => exact ⟨v, hv, hbacked, hother⟩
    | some old =>
      obtain ⟨holdrow, -, hbooked⟩ := h.sound.of_bookedVisit? hold
      by_cases hid : v.id = old.id
      · have hown : v = old := hv.unique holdrow hid
        rw [hown] at hbacked hother
        exact ⟨superseded old d.now, hasVisit_visitSaved.mpr (.inl rfl),
          hbacked.settled (Visit.isDraft_of_isBooked hbooked) rfl rfl rfl, hother⟩
      · exact ⟨v, hasVisit_visitSaved.mpr (.inr ⟨hid, hv⟩), hbacked, hother⟩

theorem backed_discard (h : d.store.Linked) (hb : d.store.rows.Backed) {reference : Reference}
    {existing : Application} (hstored : d.store.application? reference = some existing)
    (actionedBy : String) :
    (d.store.rows.applyCommit
      (existing.discardRecords (d.store.draft? reference) actionedBy d.now)).Backed := by
  refine hb.applyCommit (fun b hmem => ?_) (fun b v _ hv hbacked hkept => ⟨v, ?_, hbacked⟩)
    h.sound.keyed
  · simp [Application.discardRecords, Application.audit] at hmem
  · refine hasVisit_of_untouched hv
      (fun w hw => absurd hw (no_visit_discardRecords _ _ _ _ w)) fun hdeleted => ?_
    have hfound : ∃ w, d.store.draft? reference = some w ∧ w.isDraft = true ∧ w.id = v.id := by
      simpa [Application.discardRecords, Application.audit, and_assoc] using hdeleted
    obtain ⟨w, hdrafted, hdraft, hid⟩ := hfound
    have hown : w = v := (h.sound.of_draft? hdrafted).1.unique hv hid
    refine hkept (.applicationDeleted existing.reference) (by simp [Application.discardRecords]) ?_
    change existing.reference = b.reference
    rw [← (h.drafts hstored hdrafted).application, hown]
    exact hbacked.own_of_isDraft (by rw [← hown]; exact hdraft)

theorem mem_pendingRecords (h : d.store.Linked) {bookingReference : Reference} {target : Visit}
    {actionedBy : String} {r : Record}
    (hr : r ∈ (d.pendingOf bookingReference target).flatMap
      fun v => d.discardPending v actionedBy) :
    ∃ v, d.store.rows.HasVisit v ∧ v.isDraft = true ∧ v.id ≠ target.id ∧
      (r = .applicationDeleted v.applicationReference ∨ r = .visitDeleted v.id ∨
        ∃ audit, r = .audit audit) ∧
      .applicationDeleted v.applicationReference ∈
        (d.pendingOf bookingReference target).flatMap fun v => d.discardPending v actionedBy := by
  obtain ⟨v, hv, hr⟩ := List.mem_flatMap.mp hr
  obtain ⟨⟨hrow, -⟩, hdraft, hother⟩ := (mem_pendingOf h.sound).mp hv
  obtain ⟨audit, hrecords⟩ := discardPending_eq h hrow hdraft actionedBy
  refine ⟨v, hrow, hdraft, hother, ?_, List.mem_flatMap.mpr ⟨v, hv, by rw [hrecords]; simp⟩⟩
  rw [hrecords] at hr
  simp only [List.mem_cons, List.not_mem_nil, or_false] at hr
  rcases hr with hr | hr | hr
  · exact .inl hr
  · exact .inr (.inl hr)
  · exact .inr (.inr ⟨audit, hr⟩)

/-- Behind the cancelled visit a draft goes only along with its application. -/
theorem pending_of_visitDeleted (h : d.store.Linked) {bookingReference : Reference} {target : Visit}
    {audit : EventAudit} {actionedBy : String} {i : UInt64}
    (hi : .visitDeleted i ∈ (if target.isDraft then
      [.applicationDeleted target.applicationReference] else []) ++ .audit audit ::
        (d.pendingOf bookingReference target).flatMap fun v => d.discardPending v actionedBy) :
    ∃ v, d.store.rows.HasVisit v ∧ v.isDraft = true ∧ v.id = i ∧ v.id ≠ target.id ∧
      .applicationDeleted v.applicationReference ∈ (d.pendingOf bookingReference target).flatMap
        fun v => d.discardPending v actionedBy := by
  have hi : .visitDeleted i ∈ (d.pendingOf bookingReference target).flatMap
      fun v => d.discardPending v actionedBy := by
    rcases List.mem_append.mp hi with hi | hi
    · split at hi <;> simp at hi
    · exact (List.mem_cons.mp hi).resolve_left nofun
  obtain ⟨v, hrow, hdraft, hother, hr | hr | ⟨_, hr⟩, happlication⟩ := mem_pendingRecords h hi
  · cases hr
  · exact ⟨v, hrow, hdraft, (Record.visitDeleted.inj hr).symm, hother, happlication⟩
  · cases hr

theorem backed_cancel (h : d.store.Linked) (hb : d.store.rows.Backed) {bookingReference : Reference}
    {target : Visit} (htarget : d.store.rows.HasVisit target) (c : Cancellation) :
    (d.store.rows.applyCommit
      (d.cancelRecords (d.store.visitsForReference bookingReference) target c)).Backed := by
  obtain ⟨audit, hrecords⟩ := cancelRecords_eq h bookingReference htarget c
  rw [hrecords]
  refine hb.applyCommit (fun b hmem => ?_) (fun b v _ hv hbacked hkept => ?_) h.sound.keyed
  · rcases List.mem_cons.mp hmem with hmem | hmem
    · cases hmem
    rcases List.mem_append.mp hmem with hmem | hmem
    · split at hmem <;> simp at hmem
    · have hmem := (List.mem_cons.mp hmem).resolve_left nofun
      obtain ⟨v, -, -, -, hr | hr | ⟨_, hr⟩, -⟩ := mem_pendingRecords h hmem <;> cases hr
  · by_cases hid : v.id = target.id
    · cases hv.unique htarget hid
      have hsettled : target.isDraft = false := by
        refine eq_false_of_ne_true fun hdraft => ?_
        exact hkept (.applicationDeleted target.applicationReference) (by simp [hdraft])
          (hbacked.own_of_isDraft hdraft)
      refine ⟨d.cancelledTarget target c, ?_, hbacked.settled hsettled rfl rfl rfl⟩
      rw [applyCommit_cons]
      refine hasVisit_of_untouched (hasVisit_visitSaved.mpr (.inl rfl))
        (fun w hw => absurd hw (no_visit_behind_target d _ _ _ _ w)) fun hgone => ?_
      obtain ⟨w, -, -, hsame, hother, -⟩ := pending_of_visitDeleted h hgone
      exact hother hsame
    · refine ⟨v, ?_, hbacked⟩
      rw [applyCommit_cons]
      refine hasVisit_of_untouched (hasVisit_visitSaved.mpr (.inr ⟨hid, hv⟩))
        (fun w hw => absurd hw (no_visit_behind_target d _ _ _ _ w)) fun hgone => ?_
      obtain ⟨w, hrow, hdraft, hsame, -, happlication⟩ := pending_of_visitDeleted h hgone
      cases hrow.unique hv hsame
      exact hkept (.applicationDeleted v.applicationReference)
        (List.mem_cons_of_mem _ (List.mem_append_right _ (List.mem_cons_of_mem _ happlication)))
        (hbacked.own_of_isDraft hdraft)

/-- What an action commits leaves every application backed. -/
theorem backed_of_writes (h : d.store.Linked) (hb : d.store.rows.Backed) {a : Action} {c : Commit}
    (hw : d.Writes a c) : (d.store.rows.applyCommit c).Backed := by
  cases hw with
  | createGroup | updateGroup | deleteGroup | createTemplate | updateTemplate
  | setTemplateActive | deleteTemplate => exact hb
  | reserve counts booking known admits unused =>
    exact backed_start h hb rfl (ReserveRequest.drafts ..)
  | change counts found known admits unused =>
    exact backed_start h hb rfl (ChangeRequest.drafts ..)
  | amend stored incomplete drafted counts placing =>
    exact backed_amend h hb stored incomplete drafted placing
  | book stored incomplete bookable drafted left applies => exact backed_book h hb stored drafted _
  | cancel outcome short live => exact backed_cancel h hb (h.sound.of_cancellationTarget live).1 _
  | discard stored incomplete => exact backed_discard h hb stored _
  | expire stored incomplete stale => exact backed_discard h hb stored _

end Desk

end PrisonVisits
