import PrisonVisits.Proofs.History
import PrisonVisits.Proofs.Pairing
import PrisonVisits.Proofs.PendingChanges

/-! # Sweeps of expired applications

A sweep discards applications that have expired, in a commit for each, and looks at the store again
before each of them. In whatever order it comes to them it discards each with its draft and nothing
else, adds one audit for each, and tells how many there were. A second sweep finds nothing. -/

namespace PrisonVisits

open Rows Table

namespace Desk

/-- The application is incomplete and was left alone for too long. -/
def hasExpired (d : Desk) (a : Application) : Bool :=
  !a.completed && d.expiryCutoff.any (a.modifiedAt < ·)

/-- The audit of an application that a sweep discards. -/
def sweptAudit (d : Desk) (a : Application) : EventAudit where
  bookingReference := a.bookingReference
  applicationReference := some a.reference
  sessionTemplateReference := some a.sessionTemplateReference
  kind := .discardedApplication
  actionedBy := "system"
  recordedAt := d.now

/-- Goes through applications one after the other and discards those that have expired by then;
tells how many it has discarded. -/
def sweep : Desk → List Reference → Nat × Desk
  | d, [] => (0, d)
  | d, reference :: references =>
    let (later, after) := sweep (d.discardExpired reference) references
    ((if (d.expiryRecords reference).isEmpty then 0 else 1) + later, after)

/-- The given applications have been swept up with their drafts, and nothing else has happened. -/
structure Swept (d : Desk) (gone : List Application) (after : Desk) : Prop where
  applications : ∀ reference, after.store.application? reference =
    (d.store.application? reference).filter fun a => a ∉ gone
  visits : ∀ id, after.store.visit? id = (d.store.visit? id).filter fun v =>
    !(v.isDraft && v.applicationReference ∈ gone.map (·.reference))
  groups : after.store.groups = d.store.groups
  templates : after.store.templates = d.store.templates
  audits : ∀ booking, after.store.auditsFor booking = d.store.auditsFor booking ++
    (gone.filter fun a => a.bookingReference = booking).map d.sweptAudit
  rest : ∃ store journal feed, after =
    { d with store, journal, feed, delivered := d.delivered ++ gone.map d.sweptAudit }

variable {d e : Desk} {gone : List Application} {a : Application}

theorem expiredApplications_eq (d : Desk) :
    d.expiredApplications = d.store.applications.values.filter d.hasExpired := by
  unfold expiredApplications
  split
  · next cutoff hcutoff =>
    refine List.filter_congr fun a _ => ?_
    rw [hasExpired, hcutoff, Option.any_some]
  · next hnone => simp [hasExpired, hnone]

theorem sweep_snd (d : Desk) (references : List Reference) :
    (d.sweep references).2 = references.foldl discardExpired d := by
  induction references generalizing d with
  | nil => rfl
  | cons reference references ih => exact ih (d.discardExpired reference)

/-- Under a policy that settings give, no application has expired that was touched just now. -/
theorem not_hasExpired_of_now_le {s : Settings} (hpolicy : d.policy = s.policy)
    (ha : d.now ≤ a.modifiedAt) : d.hasExpired a = false := by
  unfold hasExpired
  cases hcutoff : d.expiryCutoff with
  | none => exact Bool.and_false _
  | some cutoff =>
    have httl := s.ttl_nonneg
    rw [← hpolicy] at httl
    have hpast := Moment.le_of_addSeconds? (Int.neg_nonpos_of_nonneg httl) hcutoff
    rw [Option.any_some, decide_eq_false (hpast.trans ha).not_gt, Bool.and_false]

/-! ## One application -/

theorem expiryRecords_eq {reference : Reference} (ha : d.store.application? reference = some a) :
    d.expiryRecords reference = if d.hasExpired a then
      a.discardRecords (d.store.visitForApplication? reference) "system" d.now else [] := by
  unfold expiryRecords hasExpired
  rw [ha]
  cases d.expiryCutoff with
  | none => simp
  | some cutoff =>
    simp only [Option.any_some, ← not_le, decide_not, ← Bool.not_or]
    cases a.completed || decide (cutoff ≤ a.modifiedAt) <;> rfl

/-- An expired application is discarded with its draft. -/
theorem expiryRecords_of_hasExpired (h : d.store.Paired)
    (ha : d.store.application? a.reference = some a) (hexpired : d.hasExpired a = true) :
    ∃ draft, d.store.draft? a.reference = some draft ∧ d.expiryRecords a.reference =
      [.applicationDeleted a.reference, .visitDeleted draft.id, .audit (d.sweptAudit a)] := by
  have hopen : a.completed = false := by
    rw [hasExpired, Bool.and_eq_true, Bool.not_eq_true'] at hexpired
    exact hexpired.1
  obtain ⟨draft, hdraft, hrecords⟩ := h.discardRecords_eq ha hopen "system" d.now
  refine ⟨draft, hdraft, ?_⟩
  rw [expiryRecords_eq ha, if_pos hexpired]
  exact hrecords

/-- An application that has not expired is left alone. -/
theorem expiryRecords_of_not {reference : Reference}
    (h : ∀ a, d.store.application? reference = some a → d.hasExpired a = false) :
    d.expiryRecords reference = [] := by
  cases ha : d.store.application? reference with
  | none =>
    rw [expiryRecords, ha]
    cases d.expiryCutoff <;> rfl
  | some a =>
    rw [expiryRecords_eq ha, h a ha]
    rfl

/-- Nothing has been swept up yet. -/
theorem swept_nil (d : Desk) : d.Swept [] d where
  applications := fun reference => by cases d.store.application? reference <;> rfl
  visits := fun id => by cases d.store.visit? id <;> simp [Option.filter_some]
  groups := rfl
  templates := rfl
  audits := fun booking => by simp
  rest := ⟨d.store, d.journal, d.feed, by simp⟩

theorem Swept.hasExpired_eq (h : d.Swept gone e) : e.hasExpired = d.hasExpired := by
  obtain ⟨store, journal, feed, rfl⟩ := h.rest
  rfl

theorem Swept.sweptAudit_eq (h : d.Swept gone e) : e.sweptAudit = d.sweptAudit := by
  obtain ⟨store, journal, feed, rfl⟩ := h.rest
  rfl

/-- Under its key there is only the application itself. -/
theorem application_left (h : d.store.rows.Keyed)
    (ha : d.store.application? a.reference = some a) (reference : Reference) :
    (if a.reference = reference then none else d.store.application? reference) =
      (d.store.application? reference).filter fun b => b ≠ a := by
  refine ite_none_eq_filter fun b hb => ?_
  have hkey : b.reference = reference := h.applications reference b hb
  rw [decide_eq_false_iff_not, not_not]
  constructor
  · rintro rfl
    exact Option.some.inj (hb.symm.trans ha)
  · rintro rfl
    exact hkey

/-- The draft of an application is its only one. -/
theorem draft_left (h : d.store.Linked) {reference : Reference} {draft : Visit}
    (hdraft : d.store.draft? reference = some draft) (id : UInt64) :
    (if draft.id = id then none else d.store.visit? id) =
      (d.store.visit? id).filter fun v => !(v.isDraft && v.applicationReference = reference) := by
  obtain ⟨hrow, hisDraft, hown⟩ := h.sound.of_draft? hdraft
  refine ite_none_eq_filter fun v hv => ?_
  have hkey : v.id = id := h.sound.keyed.visits id v hv
  subst hkey
  have hvrow : d.store.rows.HasVisit v := hv
  simp only [Bool.not_eq_false', Bool.and_eq_true, decide_eq_true_eq]
  constructor
  · intro hid
    cases hrow.unique hvrow hid
    exact ⟨hisDraft, hown⟩
  · rintro ⟨hvd, hvown⟩
    exact congrArg Visit.id (h.rows.draft_unique hrow hisDraft hvrow hvd (hown.trans hvown.symm))

/-- One more application is swept up. -/
theorem Swept.discard (h : d.Swept gone e) (hlinked : e.store.Linked) {draft : Visit}
    (ha : e.store.application? a.reference = some a)
    (hdraft : e.store.draft? a.reference = some draft)
    (hrecords : e.expiryRecords a.reference =
      [.applicationDeleted a.reference, .visitDeleted draft.id, .audit (e.sweptAudit a)]) :
    d.Swept (gone ++ [a]) (e.discardExpired a.reference) := by
  rw [h.sweptAudit_eq] at hrecords
  have hrows : (e.discardExpired a.reference).store.rows = e.store.rows.applyCommit
      [.applicationDeleted a.reference, .visitDeleted draft.id, .audit (d.sweptAudit a)] := by
    rw [discardExpired_store, Store.rows_applyCommit, hrecords]
  refine ⟨fun reference => ?_, fun id => ?_, ?_, ?_, fun booking => ?_, ?_⟩
  · refine (congrArg (fun t : Rows => t.applications[reference]?) hrows).trans
      ((getElem?_erase ..).trans ((application_left hlinked.sound.keyed ha reference).trans ?_))
    rw [h.applications, Option.filter_filter]
    exact filter_congr fun b _ => by simp
  · refine (congrArg (fun t : Rows => t.visits[id]?) hrows).trans
      ((getElem?_erase ..).trans ((draft_left hlinked hdraft id).trans ?_))
    rw [h.visits, Option.filter_filter]
    refine filter_congr fun v _ => ?_
    rw [← Bool.not_or, ← Bool.and_or_distrib_left]
    congr 2
    simp
  · exact (congrArg Rows.groups hrows).trans h.groups
  · exact (congrArg Rows.templates hrows).trans h.templates
  · have haudits := audits_applyCommit e.store.rows [.applicationDeleted a.reference,
      .visitDeleted draft.id, .audit (d.sweptAudit a)] booking
    rw [← hrows] at haudits
    refine haudits.trans ((congrArg (· ++ _) (h.audits booking)).trans ?_)
    rw [List.append_assoc, List.filter_append, List.map_append]
    change _ ++ (_ ++ [d.sweptAudit a].filter _) = _
    by_cases hbooking : a.bookingReference = booking <;> simp [sweptAudit, hbooking]
  · obtain ⟨store, journal, feed, he⟩ := h.rest
    have hdelivered : d.delivered ++ gone.map d.sweptAudit ++ [d.sweptAudit a] =
        d.delivered ++ (gone ++ [a]).map d.sweptAudit := by simp
    rw [discardExpired, hrecords, he, ← hdelivered]
    exact ⟨_, _, _, rfl⟩

/-- What a sweep discards leaves the links. -/
theorem linked_discardExpired (h : d.store.Linked) (reference : Reference) :
    (d.discardExpired reference).store.Linked := by
  rw [discardExpired_store]
  by_cases hnone : d.expiryRecords reference = []
  · rw [hnone]
    exact h
  · refine ⟨h.sound.applyCommit _, ?_, ?_, ?_⟩
    · rw [Store.rows_applyCommit]
      exact linked_rows_of_writes h (writes_expire hnone)
    · exact h.found.applyCommit h.sound (orderly_of_no_visit (no_visit_expiryRecords d reference))
    · exact h.below.applyCommit fun v hv => absurd hv (no_visit_expiryRecords d reference v)

theorem backed_discardExpired (h : d.store.Linked) (hbacked : d.store.rows.Backed)
    (reference : Reference) : (d.discardExpired reference).store.rows.Backed := by
  rw [discardExpired_store, Store.rows_applyCommit]
  by_cases hnone : d.expiryRecords reference = []
  · rw [hnone]
    exact hbacked
  · exact backed_of_writes h hbacked (writes_expire hnone)

/-! ## The sweep -/

/-- Whatever the order, the applications that the sweep comes to are swept up and counted. -/
theorem Swept.sweep {order : List Application} (h : d.Swept gone e) (hlinked : e.store.Linked)
    (hbacked : e.store.rows.Backed)
    (horder : ∀ a ∈ order, d.store.application? a.reference = some a ∧ d.hasExpired a = true ∧
      a ∉ gone) (hnodup : order.Nodup) :
    (e.sweep (order.map (·.reference))).1 = order.length ∧
      d.Swept (gone ++ order) (e.sweep (order.map (·.reference))).2 := by
  induction order generalizing e gone with
  | nil => exact ⟨rfl, by rwa [List.append_nil]⟩
  | cons a order ih =>
    obtain ⟨⟨hstored, hexpired, hleft⟩, hrest⟩ := List.forall_mem_cons.mp horder
    obtain ⟨hfirst, hnodup⟩ := List.nodup_cons.mp hnodup
    have ha : e.store.application? a.reference = some a := by
      rw [h.applications, hstored, Option.filter_some, if_pos (by simpa using hleft)]
    obtain ⟨draft, hdraft, hrecords⟩ := expiryRecords_of_hasExpired (hlinked.paired hbacked) ha
      (by rw [h.hasExpired_eq]; exact hexpired)
    have hothers : ∀ b ∈ order, d.store.application? b.reference = some b ∧
        d.hasExpired b = true ∧ b ∉ gone ++ [a] := by
      intro b hb
      obtain ⟨hb', hbexpired, hbleft⟩ := hrest b hb
      refine ⟨hb', hbexpired, fun hgone => ?_⟩
      rcases List.mem_append.mp hgone with hgone | hgone
      · exact hbleft hgone
      · exact hfirst (List.mem_singleton.mp hgone ▸ hb)
    obtain ⟨hcount, hswept⟩ := ih (h.discard hlinked ha hdraft hrecords)
      (linked_discardExpired hlinked _) (backed_discardExpired hlinked hbacked _) hothers hnodup
    rw [List.append_assoc] at hswept
    refine ⟨?_, hswept⟩
    rw [List.map_cons, sweep, List.length_cons, ← hcount, hrecords, Nat.add_comm]
    rfl

/-- Where nothing has expired a sweep does nothing. -/
theorem sweep_of_none (h : ∀ reference a, d.store.application? reference = some a →
    d.hasExpired a = false) (references : List Reference) : d.sweep references = (0, d) := by
  induction references with
  | nil => rfl
  | cons reference references ih =>
    have hnone := expiryRecords_of_not (h reference)
    rw [sweep, discardExpired, hnone, commit_nil, ih]
    rfl

theorem expire_of_none (h : ∀ reference a, d.store.application? reference = some a →
    d.hasExpired a = false) : d.expire = (0, d) := by
  have hnone : d.expiredApplications = [] := by
    rw [expiredApplications_eq, List.filter_eq_nil_iff]
    intro a ha
    obtain ⟨reference, hstored⟩ := mem_values.mp ha
    rw [h reference a hstored]
    exact Bool.false_ne_true
  rw [expire, hnone]
  rfl

/-- The sweep has discarded the expired applications and their drafts, in this order, and done
nothing else; there is nothing left for another one. -/
structure SweepsExactly (d : Desk) (order : List Application) (count : Nat) (after : Desk) :
    Prop where
  counted : count = d.store.applications.values.countP d.hasExpired
  applications : ∀ reference, after.store.application? reference =
    (d.store.application? reference).filter fun a => !d.hasExpired a
  drafts : ∀ reference a, d.store.application? reference = some a → d.hasExpired a = true →
    ∃ draft, d.store.draft? reference = some draft ∧ a.Drafts draft ∧
      after.store.visit? draft.id = none
  visits : ∀ id, after.store.visit? id = (d.store.visit? id).filter fun v =>
    !(v.isDraft && (d.store.application? v.applicationReference).any d.hasExpired)
  groups : after.store.groups = d.store.groups
  templates : after.store.templates = d.store.templates
  audits : ∀ booking, after.store.auditsFor booking = d.store.auditsFor booking ++
    (order.filter fun a => a.bookingReference = booking).map d.sweptAudit
  rest : ∃ store journal feed, after =
    { d with store, journal, feed, delivered := d.delivered ++ order.map d.sweptAudit }
  again : after.expire = (0, after) ∧ ∀ references, after.sweep references = (0, after)

theorem mem_of_perm_expired (h : d.store.rows.Keyed) {order : List Application}
    (horder : order.Perm d.expiredApplications) {a : Application} :
    a ∈ order ↔ d.store.application? a.reference = some a ∧ d.hasExpired a = true := by
  rw [horder.mem_iff, expiredApplications_eq, List.mem_filter]
  exact and_congr_left' h.applications.mem_values

theorem swept_of_perm (h : d.store.Linked) (hbacked : d.store.rows.Backed)
    {order : List Application} (horder : order.Perm d.expiredApplications) :
    (d.sweep (order.map (·.reference))).1 = order.length ∧
      d.Swept order (d.sweep (order.map (·.reference))).2 := by
  have hnodup : d.expiredApplications.Nodup := by
    rw [expiredApplications_eq]
    exact h.sound.keyed.applications.ascending_values.nodup.sublist List.filter_sublist
  refine (swept_nil d).sweep h hbacked (fun a ha => ?_) (horder.nodup_iff.mpr hnodup)
  obtain ⟨hstored, hexpired⟩ := (mem_of_perm_expired h.sound.keyed horder).mp ha
  exact ⟨hstored, hexpired, List.not_mem_nil⟩

theorem sweepsExactly (h : d.store.Linked) (hbacked : d.store.rows.Backed)
    {order : List Application} (horder : order.Perm d.expiredApplications) :
    d.SweepsExactly order (d.sweep (order.map (·.reference))).1
      (d.sweep (order.map (·.reference))).2 := by
  obtain ⟨hcount, hswept⟩ := swept_of_perm h hbacked horder
  generalize (d.sweep (order.map (·.reference))).1 = count at hcount ⊢
  generalize (d.sweep (order.map (·.reference))).2 = after at hswept ⊢
  have hkeyed := h.sound.keyed
  have happlications : ∀ reference, after.store.application? reference =
      (d.store.application? reference).filter fun a => !d.hasExpired a := by
    intro reference
    rw [hswept.applications]
    refine filter_congr fun a ha => ?_
    have hkey : a.reference = reference := hkeyed.applications reference a ha
    simp [mem_of_perm_expired hkeyed horder, hkey, ha]
  have hvisits : ∀ id, after.store.visit? id = (d.store.visit? id).filter fun v =>
      !(v.isDraft && (d.store.application? v.applicationReference).any d.hasExpired) := by
    intro id
    rw [hswept.visits]
    refine filter_congr fun v _ => congrArg (fun gone => !(v.isDraft && gone)) ?_
    rw [Bool.eq_iff_iff, decide_eq_true_iff, Option.any_eq_true, List.mem_map]
    constructor
    · rintro ⟨a, ha, hkey⟩
      obtain ⟨hstored, hexpired⟩ := (mem_of_perm_expired hkeyed horder).mp ha
      exact ⟨a, hkey ▸ hstored, hexpired⟩
    · rintro ⟨a, ha, hexpired⟩
      have hkey : a.reference = v.applicationReference := hkeyed.applications _ a ha
      exact ⟨a, (mem_of_perm_expired hkeyed horder).mpr ⟨hkey ▸ ha, hexpired⟩, hkey⟩
  have hnone : ∀ reference a, after.store.application? reference = some a →
      after.hasExpired a = false := by
    intro reference a ha
    rw [happlications] at ha
    rw [hswept.hasExpired_eq]
    simpa using (Option.filter_eq_some_iff.mp ha).2
  exact {
    counted := by
      rw [hcount, horder.length_eq, expiredApplications_eq, List.countP_eq_length_filter]
    applications := happlications
    drafts := by
      intro reference a ha hexpired
      have hkey : a.reference = reference := hkeyed.applications reference a ha
      subst hkey
      obtain ⟨draft, hdraft, -⟩ := expiryRecords_of_hasExpired (h.paired hbacked) ha hexpired
      obtain ⟨hrow, hisDraft, hown⟩ := h.sound.of_draft? hdraft
      refine ⟨draft, hdraft, h.drafts ha hdraft, ?_⟩
      have hstored : d.store.visit? draft.id = some draft := hrow
      rw [hvisits, hstored, Option.filter_some, if_neg]
      simp [hisDraft, hown, ha, hexpired]
    visits := hvisits
    groups := hswept.groups
    templates := hswept.templates
    audits := hswept.audits
    rest := hswept.rest
    again := ⟨expire_of_none hnone, sweep_of_none hnone⟩ }

/-! ## Runs -/

/-- All along every run from an empty journal, expired applications are discarded exactly, in
whatever order the sweep comes to them. A run with restarts takes commits that fit their length
fields. -/
theorem sweepsExactly_throughout (policy : BookingPolicy) (now : Moment)
    (prisoners : Std.ExtTreeMap String PrisonerContext) (references : ReferenceSource)
    (actions : List Action)
    (hrange : (openOn #[] policy now prisoners references).Throughout InRange actions)
    (hfits : .restart ∈ actions →
      (openOn #[] policy now prisoners references).Along Fits actions) :
    (openOn #[] policy now prisoners references).Throughout
      (fun d => d.expire = d.sweep (d.expiredApplications.map (·.reference)) ∧
        ∀ order : List Application, order.Perm d.expiredApplications →
          d.SweepsExactly order (d.sweep (order.map (·.reference))).1
            (d.sweep (order.map (·.reference))).2) actions := by
  have hbacked := rows_throughout_openOn (P := fun t => t.Backed)
    (fun h hbacked hc => backed_of_writes h hbacked hc) anchored_empty.backed hrange hfits
  refine hbacked.imp ?_
  rintro d ⟨hlinked, hbacked⟩
  refine ⟨?_, fun order horder => sweepsExactly hlinked hbacked horder⟩
  refine Prod.ext ?_ (sweep_snd d _).symm
  rw [(swept_of_perm hlinked hbacked (List.Perm.refl _)).1]
  rfl

end Desk

namespace Sample

/-- Application d for booking b, which has a booked visit, and application f for booking e are left
alone for four hours. -/
def leftAlone : List Action :=
  pendingChange ++ [.reserve reservation, .setClock ⟨friday, time 16 (by decide)⟩]

theorem along_leftAlone : desk.Along (Desk.AppendsAtMost 1000) leftAlone := by
  refine Desk.along_append.mpr ⟨along_pendingChange, ⟨nofun, ?_, ?_⟩, ⟨nofun, ?_, ?_⟩, trivial⟩
  all_goals decide +kernel

end Sample

/-- A sweep that comes to application f first discards both and leaves the booked visit. -/
theorem Desk.sweepsExactly_throughout_sample :
    let d := Sample.desk.run Sample.leftAlone
    Sample.desk.Throughout Desk.InRange Sample.leftAlone ∧
      (∃ order : List Application, order.Perm d.expiredApplications ∧
        order.map (·.reference) = ["f", "d"] ∧
        d.SweepsExactly order 2 (d.sweep ["f", "d"]).2) ∧
      ((d.sweep ["f", "d"]).2.store.bookedVisit? "b").map (·.id) = some 1 := by
  intro d
  have hrange := Desk.throughout_inRange (m := 0) (by decide) (by decide +kernel)
    Sample.along_leftAlone (by decide)
  have hperm : d.expiredApplications.reverse.Perm d.expiredApplications := List.reverse_perm _
  have hnames : d.expiredApplications.reverse.map (·.reference) = ["f", "d"] := by decide +kernel
  have hcount : (d.sweep ["f", "d"]).1 = 2 := by decide +kernel
  have hsweeps : d.SweepsExactly d.expiredApplications.reverse
      (d.sweep (d.expiredApplications.reverse.map (·.reference))).1
      (d.sweep (d.expiredApplications.reverse.map (·.reference))).2 :=
    (sweepsExactly_throughout Sample.policy _ _ Sample.letters Sample.leftAlone hrange
      (by simp [Sample.leftAlone, Sample.pendingChange, Sample.confirmed,
        Sample.actions])).last.2 _ hperm
  rw [hnames, hcount] at hsweeps
  exact ⟨hrange, ⟨_, hperm, hnames, hsweeps⟩, by decide +kernel⟩

end PrisonVisits
