import PrisonVisits.Proofs.Coverage
import PrisonVisits.Proofs.PendingChanges
import PrisonVisits.Proofs.WellFormed

/-! # What an application needs to be booked

Its people must be in order, and its session must still run and admit the prisoner. Whatever else
a booking looks at is there: the draft, the template and its groups, and the booked visit that a
change replaces. -/

namespace PrisonVisits

open Text Rows

/-! ## People -/

theorem SupportType.ofCode?_eq_some {code : String} {kind : SupportType} :
    Vocabulary.ofCode? code = some kind ↔ Vocabulary.code kind = code := by
  constructor
  · intro h
    exact beq_iff_eq.mp (List.find?_some (p := fun w : SupportType => Vocabulary.code w == code) h)
  · rintro rfl
    cases kind <;> rfl

/-- The code of the support request is known, and OTHER comes with a text that is not blank. -/
def VisitorSupport.Understood (s : VisitorSupport) : Prop :=
  ∃ kind : SupportType, Vocabulary.code kind = s.code ∧
    (kind = .other → ∃ text, s.text = some text ∧ isBlank text = false)

theorem VisitorSupport.check_eq_ok {s : VisitorSupport} : s.check = .ok () ↔ s.Understood := by
  have hdescribed : ∀ kind : SupportType, (kind != .other || !isBlank (s.text.getD "")) = true ↔
      (kind = .other → ∃ text, s.text = some text ∧ isBlank text = false) := by
    intro kind
    cases s.text with
    | none => cases kind <;> decide
    | some text => simp [Decidable.imp_iff_not_or]
  unfold check Understood
  cases hcode : (Vocabulary.ofCode? s.code : Option SupportType) with
  | none =>
    refine iff_of_false nofun ?_
    rintro ⟨kind, hkind, -⟩
    cases hcode.symm.trans (SupportType.ofCode?_eq_some.mpr hkind)
  | some kind =>
    simp only [require_eq_ok, hdescribed]
    constructor
    · exact fun h => ⟨kind, SupportType.ofCode?_eq_some.mp hcode, h⟩
    · rintro ⟨kind', hkind', h⟩
      cases hcode.symm.trans (SupportType.ofCode?_eq_some.mpr hkind')
      exact h

namespace Application

/-- Somebody comes, one of the visitors at most is the contact, and all support is understood. -/
structure Peopled (a : Application) : Prop where
  visitors : a.visitors ≠ []
  contact : a.visitors.countP (·.visitContact) ≤ 1
  support : ∀ s ∈ a.support, s.Understood

theorem checkBookable_eq_ok {a : Application} : a.checkBookable = .ok () ↔
    checkCounts a.visitors a.support = .ok () ∧ a.Peopled := by
  have hvisitors : (!a.visitors.isEmpty) = true ↔ a.visitors ≠ [] := by simp
  simp only [checkBookable, bind_eq_ok, require_eq_ok, hvisitors, decide_eq_true_eq, forM_eq_ok,
    VisitorSupport.check_eq_ok]
  constructor
  · rintro ⟨_, hcounts, _, hsome, _, hcontact, hsupport⟩
    exact ⟨hcounts, hsome, hcontact, hsupport⟩
  · rintro ⟨hcounts, hsome, hcontact, hsupport⟩
    exact ⟨(), hcounts, (), hsome, (), hcontact, hsupport⟩

end Application

/-! ## What is booked -/

/-- The session of the application still runs and admits the prisoner. -/
structure Desk.Welcomes (d : Desk) (a : Application) (session : SessionShape)
    (context : PrisonerContext) : Prop where
  shape : d.store.HasShape a.sessionTemplateReference session
  active : session.template.active = true
  known : d.prisoners[a.prisonerId]? = some context
  held : context.prisonCode = session.template.prisonCode
  eligible : session.eligibility.allows context = true

/-- What the application needs to be booked. -/
structure Desk.Clears (d : Desk) (a : Application) : Prop where
  incomplete : a.completed = false
  peopled : a.Peopled
  welcome : ∃ session context, d.Welcomes a session context

namespace Desk

variable {d : Desk} {a : Application} {reference : Reference} {actionedBy : String} {draft : Visit}

theorem confirmStillApplies_eq_ok : d.confirmStillApplies a = .ok () ↔
    ∃ session context, d.Welcomes a session context := by
  simp only [confirmStillApplies, checkHeldThere, bind_eq_ok, require_eq_ok, getTemplate_eq_ok,
    prisoner_eq_ok, checkEligible_eq_ok, beq_iff_eq]
  constructor
  · rintro ⟨T, hT, _, hactive, context, hknown, _, hheld, e, he, hrefusing⟩
    exact ⟨⟨T, e⟩, context, ⟨hT, he⟩, hactive, hknown, hheld.symm, List.isEmpty_iff.mpr hrefusing⟩
  · rintro ⟨⟨T, e⟩, context, ⟨hT, he⟩, hactive, hknown, hheld, heligible⟩
    exact ⟨T, hT, (), hactive, context, hknown, (), hheld.symm, e, he,
      List.isEmpty_iff.mp heligible⟩

/-- The records that book the draft of an application. -/
def bookRecords (d : Desk) (a : Application) (draft : Visit) (actionedBy : String) : Commit :=
  (d.store.bookedVisit? a.bookingReference).toList.flatMap (supersedeRecords · actionedBy d.now) ++
    [.visitSaved (a.booked draft d.now), .applicationSaved (a.complete d.now),
      a.bookedAudit (a.booked draft d.now) actionedBy d.now]

/-- The application passes every check of a booking, and this is its draft. -/
structure Passes (d : Desk) (reference : Reference) (a : Application) (draft : Visit) : Prop where
  stored : d.store.application? reference = some a
  incomplete : a.completed = false
  bookable : a.checkBookable = .ok ()
  drafted : d.store.draft? reference = some draft
  left : a.kind = .change → (d.store.bookedVisit? a.bookingReference).isSome = true
  applies : d.confirmStillApplies a = .ok ()

theorem planBook_eq_ok {t : Transition Visit} : d.planBook reference actionedBy = .ok t ↔
    ∃ a draft, d.Passes reference a draft ∧
      .of (a.booked draft d.now) (d.bookRecords a draft actionedBy) = t := by
  have hopen : ∀ a : Application, (!a.completed) = true ↔ a.completed = false := by simp
  have hleft : ∀ a : Application, (a.kind != .change ||
      (d.store.bookedVisit? a.bookingReference).isSome) = true ↔
      (a.kind = .change → (d.store.bookedVisit? a.bookingReference).isSome = true) := by
    intro a
    cases a.kind <;> simp
  simp only [planBook, Store.getApplication, Store.getDraft, bind_eq_ok, pure_eq_ok, found_eq_ok,
    require_eq_ok, hopen, hleft]
  constructor
  · rintro ⟨a, ha, _, hincomplete, _, hbookable, draft, hdrafted, _, hleft, _, happlies, ht⟩
    exact ⟨a, draft, ⟨ha, hincomplete, hbookable, hdrafted, hleft, happlies⟩, ht⟩
  · rintro ⟨a, draft, ⟨ha, hincomplete, hbookable, hdrafted, hleft, happlies⟩, ht⟩
    exact ⟨a, ha, (), hincomplete, (), hbookable, draft, hdrafted, (), hleft, (), happlies, ht⟩

theorem book_of_passes (h : d.Passes reference a draft) (actionedBy : String) :
    d.book reference actionedBy =
      (.ok (a.booked draft d.now), d.commit (d.bookRecords a draft actionedBy)) := by
  unfold book transact
  rw [Plan.run_lift, planBook_eq_ok.mpr ⟨a, draft, h, rfl⟩]
  rfl

/-- A booking is granted to an application that passes; a refused one does nothing. -/
theorem book_cases (d : Desk) (reference : Reference) (actionedBy : String) :
    (∃ a draft, d.Passes reference a draft) ∨
      ∃ refusal, d.book reference actionedBy = (.error refusal, d) := by
  cases hplan : d.planBook reference actionedBy with
  | ok t =>
    obtain ⟨a, draft, h, -⟩ := planBook_eq_ok.mp hplan
    exact .inl ⟨a, draft, h⟩
  | error refusal =>
    refine .inr ⟨refusal, ?_⟩
    unfold book transact
    rw [Plan.run_lift, hplan]

theorem passes_of_book {v : Visit} (h : (d.book reference actionedBy).1 = .ok v) :
    ∃ a draft, d.Passes reference a draft ∧ v = a.booked draft d.now := by
  rcases d.book_cases reference actionedBy with ⟨a, draft, hpasses⟩ | ⟨refusal, hrefused⟩
  · rw [book_of_passes hpasses] at h
    exact ⟨a, draft, hpasses, (Except.ok.inj h).symm⟩
  · rw [hrefused] at h
    cases h

theorem Passes.clears (h : d.Passes reference a draft) : d.Clears a where
  incomplete := h.incomplete
  peopled := (Application.checkBookable_eq_ok.mp h.bookable).2
  welcome := confirmStillApplies_eq_ok.mp h.applies

/-- The template of the draft is active. -/
theorem Passes.template (h : d.Passes reference a draft) (hlinked : d.store.Linked) :
    ∃ T, d.store.template? draft.sessionTemplateReference = some T ∧ T.active = true := by
  obtain ⟨session, context, hwelcome⟩ := h.clears.welcome
  rw [(hlinked.drafts h.stored h.drafted).template]
  exact ⟨session.template, hwelcome.shape.1, hwelcome.active⟩

/-- Whatever a booking looks at beside the application is there. -/
theorem exists_passes (h : d.store.Linked) (hbacked : d.store.rows.Backed)
    (hchangeable : d.store.rows.Changeable) (hsized : d.store.rows.Sized)
    (ha : d.store.application? reference = some a) (hclears : d.Clears a) :
    ∃ draft, d.Passes reference a draft := by
  obtain ⟨hkey, draft, hfound, hdraft, -, hchanging, hdrafts⟩ :=
    (h.paired hbacked).draft reference a ha hclears.incomplete
  refine ⟨draft, ha, hclears.incomplete, ?_, ?_, fun hchange => ?_,
    confirmStillApplies_eq_ok.mpr hclears.welcome⟩
  · exact Application.checkBookable_eq_ok.mpr ⟨hsized.applications reference a ha, hclears.peopled⟩
  · exact Option.filter_eq_some_iff.mpr ⟨hfound, hdraft⟩
  · have hrow := (h.sound.visitForApplication hfound).1
    rw [bookedVisit?_isSome_iff h.sound, ← hdrafts.booking]
    exact hchangeable draft hrow (hchanging.mpr hchange)

/-- The session of a stored application is known, whether the template is active or not. -/
theorem exists_session (hbacked : d.store.rows.Backed) (hgrouped : d.store.rows.Grouped)
    (hnamed : d.store.rows.Named) (ha : d.store.application? reference = some a) :
    ∃ session, d.store.HasShape a.sessionTemplateReference session := by
  obtain ⟨v, hv, hbacks⟩ := hbacked reference a ha
  obtain ⟨T, hT⟩ := hnamed v hv
  rw [hbacks.template] at hT
  exact Store.exists_hasShape hgrouped hT

end Desk

end PrisonVisits
