import PrisonVisits.Proofs.History
import PrisonVisits.Proofs.Independence
import PrisonVisits.Proofs.PendingChanges

/-! # Discarding undoes a hold

Reserving or changing puts an application and its draft in place, amendments move the two to other
sessions, and discarding takes them away. All that this writes is about the one application, its one
draft and the audits of its booking, so every other row stays. As long as references do not come
twice, no earlier visit was of the application, and the index from applications to visits loses what
it gained. So the store is the one from before, every index included, but for the audits of the
booking and the id that the draft has used up. -/

namespace PrisonVisits

open Std Rows Table

/-- What a hold writes about: an application, its draft, and the audits of its booking. -/
def RowKey.OfHold (k : RowKey) (a : Application) (id : UInt64) : Prop :=
  k = .application a.reference ∨ k = .visit id ∨ k = .trail a.bookingReference

/-- The audits are of steps of these kinds that the application took one after the other. -/
def Application.Took (a : Application) (audits : List EventAudit) (kinds : List AuditKind) : Prop :=
  audits.map (·.kind) = kinds ∧ ∀ e ∈ audits,
    e.bookingReference = a.bookingReference ∧ e.applicationReference = some a.reference

theorem Application.Took.append {a : Application} {audits more : List EventAudit}
    {kinds kinds' : List AuditKind} (h : a.Took audits kinds) (h' : a.Took more kinds') :
    a.Took (audits ++ more) (kinds ++ kinds') :=
  ⟨by rw [List.map_append, h.1, h'.1], List.forall_mem_append.mpr ⟨h.2, h'.2⟩⟩

/-- All that the action may do to the store is to amend the application. -/
def Action.AmendsOnly (reference : Reference) : Action → Prop
  | .amend application _ => application = reference
  | .compact | .setClock _ | .setPrisoner _ | .subscribe .. | .poll .. | .unsubscribe _
  | .pruneFeed => True
  | _ => False

namespace Store

variable {s t began : Store} {a : Application} {id : UInt64} {c : Commit}

/-! ## The three parts of a hold -/

/-- An application has been put in place, with a draft under the next id. -/
structure Begins (s began : Store) (a : Application) (id : UInt64) : Prop where
  application : s.application? a.reference = none
  visit : s.visit? id = none
  unfound : s.visitByApplication[a.reference]? = none
  found : began.visitByApplication = s.visitByApplication.insert a.reference id
  byPrison : began.templatesByPrison = s.templatesByPrison
  nextVisitId : began.nextVisitId = s.nextVisitId + 1
  others : ∀ k : RowKey, ¬k.OfHold a id → began.rows.SameAt s.rows k
  audits : ∃ e, began.auditsFor a.bookingReference = s.auditsFor a.bookingReference ++ [e] ∧
    a.Took [e] [a.kind.startAudit]

/-- The application and its draft are still in place, amended some times. -/
structure Holds (began s : Store) (a : Application) (id : UInt64) : Prop where
  linked : s.Linked
  thinned : began.Thinned s
  stored : ∃ x, s.application? a.reference = some x ∧ x.completed = false ∧
    x.bookingReference = a.bookingReference
  drafted : ∃ v, s.draft? a.reference = some v ∧ v.id = id
  others : ∀ k : RowKey, ¬k.OfHold a id → s.rows.SameAt began.rows k
  audits : ∃ added n, s.auditsFor a.bookingReference = began.auditsFor a.bookingReference ++ added ∧
    a.Took added (List.replicate n .amendedApplication)

/-- The application and its draft have been taken away. -/
structure Ends (s t : Store) (a : Application) (id : UInt64) : Prop where
  sound : t.Sound
  thinned : s.Thinned t
  application : t.application? a.reference = none
  visit : t.visit? id = none
  others : ∀ k : RowKey, ¬k.OfHold a id → t.rows.SameAt s.rows k
  audits : ∃ e, t.auditsFor a.bookingReference = s.auditsFor a.bookingReference ++ [e] ∧
    a.Took [e] [.discardedApplication]

/-- The store is the earlier one again, whatever is asked of it, but that the application has left
audits behind those of its booking and a visit id has been given out. -/
structure Restores (s t : Store) (a : Application) : Prop where
  groups : t.groups = s.groups
  templates : t.templates = s.templates
  applications : t.applications = s.applications
  visits : t.visits = s.visits
  visitsForReference : ∀ reference, t.visitsForReference reference = s.visitsForReference reference
  visitsInRoomDay : ∀ roomDay, t.visitsInRoomDay roomDay = s.visitsInRoomDay roomDay
  visitsForTemplate : ∀ template, t.visitsForTemplate template = s.visitsForTemplate template
  visitForApplication? : ∀ application,
    t.visitForApplication? application = s.visitForApplication? application
  containsReference : ∀ reference, t.containsReference reference = s.containsReference reference
  /-- The indexes are the same key for key. -/
  whole : t = { s with audits := t.audits, nextVisitId := t.nextVisitId }
  audits : ∃ added n, t.auditsFor a.bookingReference = s.auditsFor a.bookingReference ++ added ∧
    a.Took added
      (a.kind.startAudit :: List.replicate n .amendedApplication ++ [.discardedApplication])
  otherAudits : ∀ booking, booking ≠ a.bookingReference → t.auditsFor booking = s.auditsFor booking
  nextVisitId : t.nextVisitId = s.nextVisitId + 1
  counted : s.nextVisitId < t.nextVisitId

/-- With the application and its draft gone, audits and the counter are all that has changed. -/
theorem Begins.eq_of_gone (h : s.Begins began a id) (hs : s.Sound) (ht : t.Sound)
    (hthinned : began.Thinned t)
    (hothers : ∀ k : RowKey, ¬k.OfHold a id → t.rows.SameAt s.rows k)
    (happlication : t.application? a.reference = none) (hvisit : t.visit? id = none) :
    t = { s with audits := t.audits, nextVisitId := t.nextVisitId } := by
  have hsame : ∀ k : RowKey, (∀ booking, k ≠ .trail booking) → t.rows.SameAt s.rows k := by
    intro k hk
    by_cases hkey : k.OfHold a id
    · rcases hkey with rfl | rfl | rfl
      · exact happlication.trans h.application.symm
      · exact hvisit.trans h.visit.symm
      · exact absurd rfl (hk _)
    · exact hothers k hkey
  have hrows : t.rows = { s.rows with audits := t.audits } := by
    refine eq_of_sameAt fun k => ?_
    cases k with
    | group reference => exact hsame (.group reference) nofun
    | template reference => exact hsame (.template reference) nofun
    | application reference => exact hsame (.application reference) nofun
    | visit id => exact hsame (.visit id) nofun
    | trail booking => exact rfl
  have hvisits : t.visits = s.visits := congrArg Rows.visits hrows
  have hkeyed : ({ s.rows with audits := t.audits } : Rows).Keyed := hrows ▸ ht.keyed
  refine ht.eq_of_rows ⟨hkeyed, { hs.indexed with }⟩ hrows (hthinned.byPrison.trans h.byPrison)
    (ExtTreeMap.ext_getElem? fun application => ?_) rfl
  change _ = s.visitByApplication[application]?
  rw [hthinned.found, h.found, getElem?_insert, hvisits]
  split
  · next hown =>
    have hgone : s.visits[id]? = none := h.visit
    rw [← hown, h.unfound, Option.filter_some, hgone]
    rfl
  · -- the index leads to stored visits only, so it loses nothing else
    cases hfound : s.visitByApplication[application]? with
    | none => rfl
    | some i =>
      obtain ⟨v, hv, -⟩ := hs.indexed.byApplication application i hfound
      rw [Option.filter_some, hv]
      rfl

/-- A hold that has ended leaves the store as it found it. -/
theorem restores_of_ends {held : Store} (hbegins : s.Begins began a id)
    (hholds : began.Holds held a id) (hends : held.Ends t a id) (hs : s.Sound)
    (hids : s.nextVisitId + 1 ≠ 0) : s.Restores t a := by
  have hthinned := hholds.thinned.trans hends.thinned
  have hothers : ∀ k : RowKey, ¬k.OfHold a id → t.rows.SameAt s.rows k := fun k hk =>
    (hends.others k hk).trans ((hholds.others k hk).trans (hbegins.others k hk))
  have hwhole := hbegins.eq_of_gone hs hends.sound hthinned hothers hends.application hends.visit
  have hnext : t.nextVisitId = s.nextVisitId + 1 := hthinned.nextVisitId.trans hbegins.nextVisitId
  exact {
    groups := congrArg (·.groups) hwhole
    templates := congrArg (·.templates) hwhole
    applications := congrArg (·.applications) hwhole
    visits := congrArg (·.visits) hwhole
    visitsForReference := fun reference => congrArg (·.visitsForReference reference) hwhole
    visitsInRoomDay := fun roomDay => congrArg (·.visitsInRoomDay roomDay) hwhole
    visitsForTemplate := fun template => congrArg (·.visitsForTemplate template) hwhole
    visitForApplication? := fun application => congrArg (·.visitForApplication? application) hwhole
    containsReference := fun reference => congrArg (·.containsReference reference) hwhole
    whole := hwhole
    audits := by
      obtain ⟨first, hfirst, hstarted⟩ := hbegins.audits
      obtain ⟨added, n, hadded, hamended⟩ := hholds.audits
      obtain ⟨last, hlast, hdiscarded⟩ := hends.audits
      refine ⟨[first] ++ added ++ [last], n, ?_, (hstarted.append hamended).append hdiscarded⟩
      rw [hlast, hadded, hfirst]
      simp only [List.append_assoc]
    otherAudits := by
      intro booking hother
      exact congrArg (·.getD []) (hothers (.trail booking) (by simp [RowKey.OfHold, hother]))
    nextVisitId := hnext
    counted := by
      rw [hnext]
      exact lt_succ_of_ne_zero hids }

/-! ## Records of a hold -/

/-- A commit that is about the hold leaves everything else as it was. -/
theorem sameAt_ofHold (hc : ∀ r ∈ c, r.key.OfHold a id) {k : RowKey} (hk : ¬k.OfHold a id) :
    (s.applyCommit c).rows.SameAt s.rows k := by
  rw [rows_applyCommit]
  exact sameAt_applyCommit _ fun r hr hkey => hk (hkey ▸ hc r hr)

/-- The audit of a step comes behind those that the booking has. -/
theorem auditsFor_step {x : Application} {kind : AuditKind} {actionedBy : String} {now : Moment}
    (hc : c.filterMap Record.audit? = [x.audit kind actionedBy now].filterMap Record.audit?)
    (hself : x.reference = a.reference) (hbooking : x.bookingReference = a.bookingReference) :
    ∃ e, (s.applyCommit c).auditsFor a.bookingReference =
      s.auditsFor a.bookingReference ++ [e] ∧ a.Took [e] [kind] := by
  have haudits := audits_applyCommit s.rows c a.bookingReference
  have hall : ∀ e ∈ [x.audit kind actionedBy now].filterMap Record.audit?,
      decide (e.bookingReference = a.bookingReference) = true := by
    simp [Application.audit, Record.audit?, hbooking]
  rw [hc, ← rows_applyCommit, List.filter_eq_self.mpr hall] at haudits
  exact ⟨_, haudits, rfl, by simp [hself, hbooking]⟩

/-- An application and its draft are saved together. -/
theorem found_saved {x : Application} {v : Visit} {e : EventAudit}
    (hc : c = [.applicationSaved x, .visitSaved v, .audit e])
    (hlinked : (s.applyCommit c).Linked) (hdraft : v.isDraft = true)
    (hown : v.applicationReference = x.reference) :
    (s.applyCommit c).application? x.reference = some x ∧
      (s.applyCommit c).draft? x.reference = some v := by
  subst hc
  have hrows := rows_applyCommit s [.applicationSaved x, .visitSaved v, .audit e]
  constructor
  · exact (congrArg (fun t : Rows => t.applications[x.reference]?) hrows).trans
      ((getElem?_insert ..).trans (if_pos rfl))
  · rw [← hown]
    refine hlinked.draft?_eq ?_ hdraft
    rw [hrows]
    exact hasVisit_visitSaved.mpr (.inl rfl)

/-- The hold goes on where the application and its draft are saved again. -/
theorem Holds.saved (h : began.Holds s a id) {x : Application} {v : Visit} {actionedBy : String}
    {now : Moment} (hdrafts : x.Drafts v)
    (hc : c = [.applicationSaved x, .visitSaved v, x.audit .amendedApplication actionedBy now])
    (hself : x.reference = a.reference) (hbooking : x.bookingReference = a.bookingReference)
    (hopen : x.completed = false) (hid : v.id = id) (hlinked : (s.applyCommit c).Linked)
    (hthinned : s.Thinned (s.applyCommit c)) : began.Holds (s.applyCommit c) a id := by
  obtain ⟨hstored, hdrafted⟩ := found_saved hc hlinked hdrafts.isDraft hdrafts.application
  rw [hself] at hstored hdrafted
  obtain ⟨added, n, hadded, hamended⟩ := h.audits
  have hnoted : c.filterMap Record.audit? =
      [x.audit .amendedApplication actionedBy now].filterMap Record.audit? := by
    rw [hc]
    rfl
  obtain ⟨e, haudits, htook⟩ := auditsFor_step (s := s) hnoted hself hbooking
  refine ⟨hlinked, h.thinned.trans hthinned, ⟨x, hstored, hopen, hbooking⟩, ⟨v, hdrafted, hid⟩,
    fun k hk => (sameAt_ofHold (fun r hr => ?_) hk).trans (h.others k hk), added ++ [e], n + 1,
    ?_, ?_⟩
  · rw [hc] at hr
    simp only [List.mem_cons, List.not_mem_nil, or_false] at hr
    rcases hr with rfl | rfl | rfl
    · exact .inl (congrArg RowKey.application hself)
    · exact .inr (.inl (congrArg RowKey.visit hid))
    · exact .inr (.inr (congrArg RowKey.trail hbooking))
  · rw [haudits, hadded, List.append_assoc]
  · rw [List.replicate_succ']
    exact hamended.append htook

/-- A new visit is entered into every index. -/
theorem saveVisit_of_absent {v : Visit} (hnew : s.visits[v.id]? = none) : s.saveVisit v =
    { s.indexVisit v with
      visits := s.visits.insert v.id v
      nextVisitId := max s.nextVisitId (v.id + 1) } := by
  simp only [saveVisit, hnew]

end Store

namespace Desk

variable {d : Desk} {began : Store} {a : Application} {id : UInt64}

/-! ## The steps -/

theorem begins_start (h : d.store.Linked) (hids : d.store.nextVisitId + 1 ≠ 0)
    (hfiles : d.store.rows.Files a.bookingReference a.reference .blank) (o : SessionOccurrence) :
    d.store.Begins (d.store.applyCommit (d.start a o).records) a d.store.nextVisitId := by
  have hnew : d.store.visits[d.store.nextVisitId]? = none := h.below.absent h.sound.keyed
  have hsaved := Store.saveVisit_of_absent (v := a.draftVisit d.store.nextVisitId o d.now)
    (s := d.store.apply (.applicationSaved a)) hnew
  have hstore : d.store.applyCommit (d.start a o).records =
      ((d.store.apply (.applicationSaved a)).saveVisit
        (a.draftVisit d.store.nextVisitId o d.now)).apply
          (a.audit a.kind.startAudit a.createdBy d.now) := rfl
  rw [hsaved] at hstore
  exact {
    application := hfiles.row
    visit := hnew
    unfound := by
      refine Option.eq_none_iff_forall_ne_some.mpr fun i hi => ?_
      obtain ⟨v, hv, hown⟩ := h.sound.indexed.byApplication _ i hi
      have hrow : d.store.rows.HasVisit v := by
        rw [HasVisit, h.sound.keyed.visits i v hv]
        exact hv
      cases (hfiles.visit v).mp ⟨hrow, hown⟩
    found := by
      rw [hstore]
      rfl
    byPrison := by
      rw [hstore]
      rfl
    nextVisitId := by
      rw [hstore]
      exact if_pos (UInt64.le_of_lt (Store.lt_succ_of_ne_zero hids))
    others := fun k => Store.sameAt_ofHold (by
      simp [start, Record.key, RowKey.OfHold, Application.audit, Application.draftVisit])
    audits := Store.auditsFor_step rfl rfl rfl }

theorem holds_start (hopen : a.completed = false) {o : SessionOccurrence}
    (hlinked : (d.store.applyCommit (d.start a o).records).Linked) :
    (d.store.applyCommit (d.start a o).records).Holds (d.store.applyCommit (d.start a o).records) a
      d.store.nextVisitId := by
  obtain ⟨hstored, hdrafted⟩ := Store.found_saved rfl hlinked (a.isDraft_draftVisit ..) rfl
  exact ⟨hlinked, .refl hlinked.sound, ⟨a, hstored, hopen, rfl⟩, ⟨_, hdrafted, rfl⟩,
    fun k _ => .refl _ k, [], 0, (List.append_nil _).symm, rfl, by simp⟩

/-- A granted reservation or change begins a hold. -/
theorem begins_of_creates (h : d.store.Linked) (hids : d.store.nextVisitId + 1 ≠ 0)
    (hahead : d.NothingAhead) {request : Action} (hafter : (d.perform request).store.Linked)
    (hmade : d.creates request = some a) :
    d.store.Begins (d.perform request).store a d.store.nextVisitId ∧
      (d.perform request).store.Holds (d.perform request).store a d.store.nextVisitId := by
  obtain ⟨o, hrecords, hopen, i, hle, -, hreference⟩ := start_of_creates hmade
  have hfiles := hahead i a.bookingReference hle
  rw [← hreference] at hfiles
  have hrestart : request ≠ .restart := by
    rintro rfl
    cases hmade
  rw [store_perform hrestart hids, hrecords] at hafter ⊢
  exact ⟨begins_start h hids hfiles o, holds_start hopen hafter⟩

/-- An amendment, granted or refused, keeps the hold. -/
theorem holds_amend (h : began.Holds d.store a id) (hids : d.store.nextVisitId + 1 ≠ 0)
    (m : Amendment) : began.Holds (d.amend a.reference m).2.store a id := by
  have hlinked := linked_takeStep h.linked hids (.amend a.reference m)
  have hthinned := thinned_takeStep h.linked hids (.amend a.reference m)
  have hstore := store_takeStep hids (.amend a.reference m)
  have hwrites := d.writes_of_step (.amend a.reference m)
  change began.Holds (d.takeStep (.amend a.reference m)).2.store a id
  generalize d.recordsOf (BookingStep.amend a.reference m).action = c at hstore hwrites
  rw [hstore] at hlinked hthinned ⊢
  rcases hwrites with rfl | hwrites
  · exact h
  cases hwrites with
  | @amend _ _ existing placed draft moved stored incomplete drafted counts placing =>
    obtain ⟨x, hx, -, hown⟩ := h.stored
    cases hx.symm.trans stored
    obtain ⟨v, hv, rfl⟩ := h.drafted
    cases hv.symm.trans drafted
    have hsame := sameRows_of_placeAmended placing
    have hkey : existing.reference = a.reference := h.linked.sound.keyed.applications _ _ stored
    have hdrafts := drafts_of_placeAmended (h.linked.drafts stored drafted) placing
    exact h.saved hdrafts rfl (hsame.reference.trans hkey) (hsame.booking.trans hown)
      (hsame.completed.trans incomplete) hsame.id hlinked hthinned

/-- What is held can be discarded. -/
theorem discard_of_holds (h : began.Holds d.store a id) (actionedBy : String) :
    ∃ x : Application, x.reference = a.reference ∧ x.bookingReference = a.bookingReference ∧
      d.discard a.reference actionedBy = (.ok (), d.commit [.applicationDeleted a.reference,
        .visitDeleted id, x.audit .discardedApplication actionedBy d.now]) := by
  obtain ⟨x, hstored, hopen, hown⟩ := h.stored
  obtain ⟨v, hdrafted, rfl⟩ := h.drafted
  have hkey : x.reference = a.reference := h.linked.sound.keyed.applications _ _ hstored
  have hplan : d.planDiscard a.reference actionedBy =
      .ok (.of () (x.discardRecords (some v) actionedBy d.now)) := by
    simp only [planDiscard, Store.getApplication, hstored, discardRecords_draft?, hdrafted, found,
      ok_bind, hopen]
    rfl
  refine ⟨x, hkey, hown, ?_⟩
  unfold discard transact
  rw [Plan.run_lift, hplan,
    Application.discardRecords_of_isDraft (h.linked.sound.of_draft? hdrafted).2.1, hkey]
  rfl

theorem ends_discard (h : began.Holds d.store a id) (hids : d.store.nextVisitId + 1 ≠ 0)
    (actionedBy : String) : (d.discard a.reference actionedBy).1 = .ok () ∧
      d.store.Ends (d.discard a.reference actionedBy).2.store a id := by
  obtain ⟨x, hself, hbooking, hdiscard⟩ := discard_of_holds h actionedBy
  have hthinned : d.store.Thinned (d.discard a.reference actionedBy).2.store :=
    thinned_takeStep h.linked hids (.discard a.reference actionedBy)
  rw [hdiscard, commit_store] at hthinned ⊢
  have hrows := Store.rows_applyCommit d.store [.applicationDeleted a.reference, .visitDeleted id,
    x.audit .discardedApplication actionedBy d.now]
  exact ⟨rfl, {
    sound := h.linked.sound.applyCommit _
    thinned := hthinned
    application := (congrArg (fun t : Rows => t.applications[a.reference]?) hrows).trans
      ((getElem?_erase ..).trans (if_pos rfl))
    visit := (congrArg (fun t : Rows => t.visits[id]?) hrows).trans
      ((getElem?_erase ..).trans (if_pos rfl))
    others := fun k => Store.sameAt_ofHold (by
      simp [Record.key, RowKey.OfHold, Application.audit, hbooking])
    audits := Store.auditsFor_step rfl hself hbooking }⟩

/-! ## Runs -/

theorem holds_perform (h : began.Holds d.store a id) (hids : began.nextVisitId + 1 ≠ 0)
    {b : Action} (hb : b.AmendsOnly a.reference) : began.Holds (d.perform b).store a id := by
  cases b with
  | amend application m =>
    cases hb
    exact holds_amend h (h.thinned.nextVisitId ▸ hids) m
  | compact | setClock | setPrisoner | subscribe | poll | unsubscribe | pruneFeed =>
    rw [store_of_none]
    case hplan => rfl
    case hexpire | hrestart => nofun
    exact h
  | _ => cases hb

/-- The application holds its slot however often it is amended. -/
theorem holds_run (h : began.Holds d.store a id) (hids : began.nextVisitId + 1 ≠ 0)
    {meanwhile : List Action} (hall : ∀ b ∈ meanwhile, b.AmendsOnly a.reference) :
    began.Holds (d.run meanwhile).store a id := by
  induction meanwhile generalizing d with
  | nil => exact h
  | cons b meanwhile ih =>
    obtain ⟨hb, hrest⟩ := List.forall_mem_cons.mp hall
    exact ih (holds_perform h hids hb) hrest

/-- Whatever run from an empty journal a granted reservation or change follows, as long as
references do not come twice: when its application has been amended any number of times, it can
still be discarded, and then the store is as it was before. A run with restarts takes commits that
fit their length fields. -/
theorem discard_restores (policy : BookingPolicy) (now : Moment)
    (prisoners : Std.ExtTreeMap String PrisonerContext) (references : ReferenceSource)
    (hrepeats : Function.Injective references.reference) (actions : List Action) (request : Action)
    (meanwhile : List Action) (a : Application) (actionedBy : String)
    (hrange : (openOn #[] policy now prisoners references).Throughout InRange
      (actions ++ [request]))
    (hfits : .restart ∈ actions → (openOn #[] policy now prisoners references).Along Fits actions)
    (hmade : ((openOn #[] policy now prisoners references).run actions).creates request = some a)
    (hmeanwhile : ∀ b ∈ meanwhile, b.AmendsOnly a.reference) :
    let before := (openOn #[] policy now prisoners references).run actions
    let held := before.run (request :: meanwhile)
    (held.discard a.reference actionedBy).1 = .ok () ∧
      before.store.Restores (held.discard a.reference actionedBy).2.store a := by
  intro before held
  obtain ⟨hpast, hids, hnext⟩ := throughout_append.mp hrange
  obtain ⟨hlinked, hfirst, hafter⟩ := throughout_append.mp (linked_throughout hrange)
  have hahead : before.NothingAhead := .run hlinked hpast (along_takesRecords
    (faithful_openOn [] rfl (by simp) policy now prisoners references) hfits) hrepeats
    (nothingAhead_openOn policy now prisoners references)
  obtain ⟨hbegins, hholds⟩ := begins_of_creates hfirst hids.ids hahead hafter hmade
  have hheld := holds_run hholds hnext.ids hmeanwhile
  obtain ⟨hgranted, hends⟩ :=
    ends_discard hheld (hheld.thinned.nextVisitId ▸ hnext.ids) actionedBy
  exact ⟨hgranted, Store.restores_of_ends hbegins hheld hends hfirst.sound hids.ids⟩

end Desk

namespace Sample

/-- Booking aa has a booked visit. -/
def settled : List Action := actions ++ [.book "aaa" "clerk"]

/-- The prisoner of booking aa wants a closed visit instead. -/
def secondThoughts : Action := .change { closing with bookingReference := "aa" }

/-- The change goes to a later Monday, to an open visit, and back again. -/
def toAndFro : List Action :=
  [.amend "aaaa" ⟨none, some ⟨20017, by decide, by decide⟩, none, none, none, none, "clerk"⟩,
    .setClock ⟨friday, time 17 (by decide)⟩,
    .amend "aaaa" ⟨none, none, some .openVisit, none, none, none, "clerk"⟩,
    .amend "aaaa" ⟨none, some monday, some .closedVisit, none, none, none, "clerk"⟩]

theorem along_settled : grown.Along (Desk.AppendsAtMost 1000) (settled ++ [secondThoughts]) := by
  refine ⟨⟨nofun, ?_, ?_⟩, ⟨nofun, ?_, ?_⟩, ⟨nofun, ?_, ?_⟩, ⟨nofun, ?_, ?_⟩, ⟨nofun, ?_, ?_⟩,
    trivial⟩
  all_goals decide +kernel

end Sample

/-- Application aaaa for booking aa is amended three times and discarded. -/
theorem Desk.discard_restores_sample :
    let before := Sample.grown.run Sample.settled
    let held := before.run (Sample.secondThoughts :: Sample.toAndFro)
    Function.Injective Sample.growing.reference ∧
      Sample.grown.Throughout InRange (Sample.settled ++ [Sample.secondThoughts]) ∧
      (held.store.auditsFor "aa").map (·.kind) = [.reservedVisit, .bookedVisit, .changingVisit,
        .amendedApplication, .amendedApplication, .amendedApplication] ∧
      ∃ a, before.creates Sample.secondThoughts = some a ∧ a.reference = "aaaa" ∧
        (held.discard "aaaa" "clerk").1 = .ok () ∧
        before.store.Restores (held.discard "aaaa" "clerk").2.store a := by
  intro before held
  have hrange := throughout_inRange (m := 0) (by decide) (by decide +kernel)
    Sample.along_settled (by decide)
  have hnamed : (before.creates Sample.secondThoughts).map (·.reference) = some "aaaa" := by
    decide +kernel
  obtain ⟨a, hmade, hreference⟩ := Option.map_eq_some_iff.mp hnamed
  have hrestores := discard_restores Sample.policy _ _ Sample.growing Sample.growing_injective
    Sample.settled Sample.secondThoughts Sample.toAndFro a "clerk" hrange
    (by simp [Sample.settled, Sample.actions]) hmade
    (by simp [Sample.toAndFro, Action.AmendsOnly, hreference])
  rw [hreference] at hrestores
  exact ⟨Sample.growing_injective, hrange, by decide +kernel, a, hmade, hreference, hrestores⟩

end PrisonVisits
