import PrisonVisits.Desk.Sessions
import PrisonVisits.Proofs.AuditTrails
import PrisonVisits.Proofs.VisitChanges
import PrisonVisits.Proofs.VisitsToCome

/-! # History is kept

What has been settled is not rewritten. A cancelled visit and a completed application stay as they
are, a booked visit can only end, and the audits of a booking can only become more. An audit is
recorded at the time on the clock, so while the clock goes forward the moment at which a booking was
first confirmed does not change either. -/

namespace PrisonVisits

open Rows Table

namespace Rows

/-- What the first tables say of settled matters, the second ones say too. -/
structure KeptIn (t t' : Rows) : Prop where
  cancelled : ∀ (id : UInt64) (v : Visit), t.visits[id]? = some v → v.isCancelled = true →
    t'.visits[id]? = some v
  booked : ∀ (id : UInt64) (v : Visit), t.visits[id]? = some v → v.isBooked = true →
    t'.visits[id]? = some v ∨ ∃ outcome notes now, t'.visits[id]? = some (v.ended outcome notes now)
  completed : ∀ (reference : Reference) (a : Application), t.applications[reference]? = some a →
    a.completed = true → t'.applications[reference]? = some a
  audits : ∀ bookingReference : Reference,
    t.audits[bookingReference]?.getD [] <+: t'.audits[bookingReference]?.getD []

variable {t t' t'' : Rows}

theorem KeptIn.refl (t : Rows) : t.KeptIn t where
  cancelled := fun _ _ hv _ => hv
  booked := fun _ _ hv _ => .inl hv
  completed := fun _ _ ha _ => ha
  audits := fun _ => List.prefix_refl _

theorem KeptIn.trans (h : t.KeptIn t') (h' : t'.KeptIn t'') : t.KeptIn t'' where
  cancelled := fun id v hv hcancelled =>
    h'.cancelled id v (h.cancelled id v hv hcancelled) hcancelled
  booked := by
    intro id v hv hbooked
    rcases h.booked id v hv hbooked with hv' | ⟨outcome, notes, now, hended⟩
    · exact h'.booked id v hv' hbooked
    · exact .inr ⟨outcome, notes, now, h'.cancelled id _ hended rfl⟩
  completed := fun reference a ha hdone =>
    h'.completed reference a (h.completed reference a ha hdone) hdone
  audits := fun bookingReference => (h.audits bookingReference).trans (h'.audits bookingReference)

/-- The audits of a commit come behind those that are there. -/
theorem audits_applyCommit (t : Rows) (c : Commit) (bookingReference : Reference) :
    (t.applyCommit c).audits[bookingReference]?.getD [] =
      t.audits[bookingReference]?.getD [] ++
        (c.filterMap Record.audit?).filter fun a => a.bookingReference = bookingReference := by
  have hall : (t.applyCommit c).audits = (c.filterMap Record.audit?).foldl addAudit t.audits := by
    induction c generalizing t with
    | nil => rfl
    | cons r c ih =>
      refine (ih (t.apply r)).trans ?_
      cases r <;> rfl
  rw [hall, getElem?_foldl_addAudit]

end Rows

namespace Desk

variable {d : Desk} {a : Action} {actions : List Action}

/-- What an action commits keeps what is settled. -/
theorem keptIn_of_writes (h : d.store.Linked) {c : Commit} (hc : d.Writes a c) :
    d.store.rows.KeptIn (d.store.rows.applyCommit c) := by
  have hkeyed := h.sound.keyed.visits
  refine ⟨?_, ?_, fun reference x hx hdone => completed_of_writes h hc hx hdone,
    fun bookingReference => ?_⟩
  · intro id v hv hcancelled
    cases hkeyed id v hv
    rcases settled_of_writes h hc hv (Visit.isDraft_of_isCancelled hcancelled) with
      hstays | ⟨hbooked, -⟩
    · exact hstays
    · simp_all [Visit.isBooked, Visit.isCancelled]
  · intro id v hv hbooked
    cases hkeyed id v hv
    rcases settled_of_writes h hc hv (Visit.isDraft_of_isBooked hbooked) with
      hstays | ⟨-, outcome, notes, -, hended⟩
    · exact .inl hstays
    · exact .inr ⟨outcome, notes, d.now, hended⟩
  · rw [audits_applyCommit]
    exact List.prefix_append ..

/-! ## Runs -/

/-- What every commit keeps of the rows holds all along a run whose restarts give the rows back. -/
theorem rows_throughout {P : Rows → Prop} (hwrites : ∀ {e : Desk} {a c}, e.store.Linked →
      P e.store.rows → e.Writes a c → P (e.store.rows.applyCommit c)) (hP : P d.store.rows)
    (hlinked : d.Throughout (fun d => d.store.Linked) actions)
    (hrange : d.Throughout InRange actions) (htakes : d.Along TakesRecords actions) :
    d.Throughout (fun d => P d.store.rows) actions := by
  induction actions generalizing d with
  | nil => exact hP
  | cons a actions ih =>
    refine ⟨hP, ih ?_ hlinked.2 hrange.2 htakes.2⟩
    rw [htakes.1]
    exact keeps_recordsOf hP hlinked.1 hrange.1.ids a fun he hPe hc _ => hwrites he hPe hc

/-- What holds of no rows and is kept by every commit holds all along a run from an empty journal.
-/
theorem rows_throughout_openOn {P : Rows → Prop} (hwrites : ∀ {e : Desk} {a c}, e.store.Linked →
      P e.store.rows → e.Writes a c → P (e.store.rows.applyCommit c)) (hP : P Store.empty.rows)
    {policy : BookingPolicy} {now : Moment} {prisoners : Std.ExtTreeMap String PrisonerContext}
    {references : ReferenceSource}
    (hrange : (openOn #[] policy now prisoners references).Throughout InRange actions)
    (hfits : .restart ∈ actions →
      (openOn #[] policy now prisoners references).Along Fits actions) :
    (openOn #[] policy now prisoners references).Throughout
      (fun d => d.store.Linked ∧ P d.store.rows) actions := by
  have hlinked := linked_throughout hrange
  rw [← store_openOn_nil policy now prisoners references] at hP
  exact hlinked.and (rows_throughout hwrites hP hlinked hrange (along_takesRecords
    (faithful_openOn [] rfl (by simp) policy now prisoners references) hfits))

/-! ## The clock -/

theorem commit_now (d : Desk) (c : Commit) : (d.commit c).now = d.now := by
  cases c <;> rfl

theorem now_transact {α : Type} (d : Desk) (plan : Plan (Transition α)) :
    (d.transact plan).2.now = d.now := by
  unfold transact
  split
  · rfl
  · exact commit_now _ _

theorem now_expire (references : List Reference) :
    (references.foldl discardExpired d).now = d.now := by
  induction references generalizing d with
  | nil => rfl
  | cons reference references ih => exact ih.trans (commit_now d _)

/-- Only the clock itself goes on. -/
theorem now_perform (h : ∀ now, a ≠ .setClock now) : (d.perform a).now = d.now := by
  cases hplan : d.plan? a with
  | some plan => rw [perform_of_plan hplan, now_transact]
  | none =>
    cases a
    case expire => exact now_expire _
    case compact =>
      change d.compact.2.now = d.now
      unfold compact
      split <;> rfl
    case poll receiver atMost =>
      unfold perform
      dsimp only
      split <;> rfl
    case setClock now => exact absurd rfl (h now)
    all_goals first | rfl | cases hplan

theorem ClockForward.le_now (h : d.ClockForward a) : d.now ≤ (d.perform a).now := by
  by_cases hclock : ∃ now, a = .setClock now
  · obtain ⟨now, rfl⟩ := hclock
    exact h
  · exact (now_perform fun now hnow => hclock ⟨now, hnow⟩).ge

theorem le_now_run (hclock : d.Along ClockForward actions) : d.now ≤ (d.run actions).now := by
  induction actions generalizing d with
  | nil => exact le_rfl
  | cons a actions ih => exact le_trans hclock.1.le_now (ih hclock.2)

/-! ## The times of audits -/

theorem recordedAt_of_discardRecords {x : Application} {draft : Option Visit} {actionedBy : String}
    {now : Moment} {e : EventAudit} (he : .audit e ∈ x.discardRecords draft actionedBy now) :
    e.recordedAt = now := by
  simp only [Application.discardRecords, Application.audit, List.cons_append, List.mem_cons,
    List.mem_append, List.mem_map, reduceCtorEq, and_false, exists_false, false_or,
    Record.audit.injEq, List.not_mem_nil, or_false] at he
  rw [he]

/-- An action records audits at the time on the clock. -/
theorem recordedAt_of_writes {c : Commit} (hc : d.Writes a c) {e : EventAudit}
    (he : .audit e ∈ c) : e.recordedAt = d.now := by
  cases hc with
  | createGroup | updateGroup | deleteGroup | createTemplate | updateTemplate
  | setTemplateActive | deleteTemplate => simp at he
  | reserve | change | amend =>
    simp [start, Application.audit] at he
    rw [he]
  | book =>
    simp only [supersedeRecords, Visit.cancelledAudit, Application.bookedAudit, List.mem_append,
      List.mem_flatMap, List.mem_cons, reduceCtorEq, Record.audit.injEq, List.not_mem_nil,
      or_false, false_or] at he
    rcases he with ⟨old, -, rfl⟩ | rfl <;> rfl
  | cancel =>
    simp only [cancelRecords, Visit.cancelledAudit, List.cons_append, List.mem_cons,
      List.mem_append, List.mem_flatMap, reduceCtorEq, Record.audit.injEq, false_or] at he
    rcases he with he | rfl | ⟨v, -, he⟩
    · split at he <;> simp at he
    · rfl
    · unfold discardPending at he
      split at he
      · exact recordedAt_of_discardRecords he
      · simp at he
  | discard | expire => exact recordedAt_of_discardRecords he

theorem recordedAt_of_expiryCommits {references : List Reference} {e : EventAudit}
    (he : .audit e ∈ (d.expiryCommits references).flatten) : e.recordedAt = d.now := by
  induction references generalizing d with
  | nil => cases he
  | cons reference references ih =>
    rw [expiryCommits, List.flatten_cons, List.mem_append] at he
    rcases he with he | he
    · exact recordedAt_of_writes (writes_expire (List.ne_nil_of_mem he)) he
    · have hnow : (d.discardExpired reference).now = d.now := commit_now d _
      exact (ih he).trans hnow

theorem recordedAt_of_recordsOf {e : EventAudit} (he : .audit e ∈ d.recordsOf a) :
    e.recordedAt = d.now := by
  rcases d.recordsOf_cases a with hnil | hc | rfl
  · rw [hnil] at he
    cases he
  · exact recordedAt_of_writes hc he
  · rw [recordsOf_expire] at he
    exact recordedAt_of_expiryCommits he

/-- An action adds audits of the present to those that are there. -/
theorem auditsFor_perform (htakes : d.TakesRecords a) (bookingReference : Reference) :
    ∃ more, (d.perform a).store.auditsFor bookingReference =
        d.store.auditsFor bookingReference ++ more ∧ ∀ e ∈ more, e.recordedAt = d.now := by
  refine ⟨_, (congrArg (fun t : Rows => t.audits[bookingReference]?.getD []) htakes).trans
    (audits_applyCommit ..), fun e he => ?_⟩
  obtain ⟨r, hr, haudit⟩ := List.mem_filterMap.mp (List.mem_of_mem_filter he)
  cases r with
  | audit x =>
    cases haudit
    exact recordedAt_of_recordsOf hr
  | _ => cases haudit

/-- No audit is of a time to come. -/
def Recorded (d : Desk) : Prop :=
  ∀ bookingReference, ∀ e ∈ d.store.auditsFor bookingReference, e.recordedAt ≤ d.now

theorem recorded_openOn (policy : BookingPolicy) (now : Moment)
    (prisoners : Std.ExtTreeMap String PrisonerContext) (references : ReferenceSource) :
    (openOn #[] policy now prisoners references).Recorded := by
  intro bookingReference e he
  rw [store_openOn_nil] at he
  simp [Store.auditsFor, Store.empty] at he

theorem Recorded.run (h : d.Recorded) (htakes : d.Along TakesRecords actions)
    (hclock : d.Along ClockForward actions) : (d.run actions).Recorded := by
  induction actions generalizing d with
  | nil => exact h
  | cons a actions ih =>
    refine ih (fun bookingReference e he => ?_) htakes.2 hclock.2
    obtain ⟨more, haudits, hmore⟩ := auditsFor_perform htakes.1 bookingReference
    rw [haudits] at he
    rcases List.mem_append.mp he with he | he
    · exact le_trans (h bookingReference e he) hclock.1.le_now
    · rw [hmore e he]
      exact hclock.1.le_now

/-- While the clock goes forward, the audits that a run adds are none of its past. -/
theorem auditsFor_run (htakes : d.Along TakesRecords actions)
    (hclock : d.Along ClockForward actions) (bookingReference : Reference) :
    ∃ more, (d.run actions).store.auditsFor bookingReference =
        d.store.auditsFor bookingReference ++ more ∧ ∀ e ∈ more, d.now ≤ e.recordedAt := by
  induction actions generalizing d with
  | nil => exact ⟨[], (List.append_nil _).symm, by simp⟩
  | cons a actions ih =>
    obtain ⟨first, hfirst, hnow⟩ := auditsFor_perform htakes.1 bookingReference
    obtain ⟨rest, hrest, hlater⟩ := ih htakes.2 hclock.2
    refine ⟨first ++ rest, ?_, List.forall_mem_append.mpr ⟨fun e he => ?_, fun e he => ?_⟩⟩
    · change ((d.perform a).run actions).store.auditsFor bookingReference = _
      rw [hrest, hfirst, List.append_assoc]
    · exact (hnow e he).ge
    · exact le_trans hclock.1.le_now (hlater e he)

/-! ## The first confirmation -/

/-- The earlier one of a moment and that of an audit. -/
def sooner (earliest : Option Moment) (e : EventAudit) : Option Moment :=
  match earliest with
  | some m => if e.recordedAt < m then some e.recordedAt else some m
  | none => some e.recordedAt

theorem firstBookedAt_eq (d : Desk) (bookingReference : Reference) :
    d.firstBookedAt bookingReference =
      ((d.store.auditsFor bookingReference).filter fun e => e.kind == .bookedVisit).foldl
        sooner none := rfl

theorem foldl_sooner_of_le {l : List EventAudit} {m : Moment} (h : ∀ e ∈ l, m ≤ e.recordedAt) :
    l.foldl sooner (some m) = some m := by
  induction l with
  | nil => rfl
  | cons e l ih =>
    obtain ⟨he, hl⟩ := List.forall_mem_cons.mp h
    have hstays : sooner (some m) e = some m := if_neg he.not_gt
    rw [List.foldl_cons, hstays]
    exact ih hl

theorem mem_of_foldl_sooner {l : List EventAudit} {earliest : Option Moment} {m : Moment}
    (h : l.foldl sooner earliest = some m) : earliest = some m ∨ ∃ e ∈ l, e.recordedAt = m := by
  induction l generalizing earliest with
  | nil => exact .inl h
  | cons e l ih =>
    rcases ih h with hfirst | ⟨x, hx, hm⟩
    · cases earliest with
      | none => exact .inr ⟨e, List.mem_cons_self, Option.some.inj hfirst⟩
      | some n =>
        simp only [sooner] at hfirst
        split at hfirst
        · exact .inr ⟨e, List.mem_cons_self, Option.some.inj hfirst⟩
        · exact .inl hfirst
    · exact .inr ⟨x, List.mem_cons_of_mem _ hx, hm⟩

/-- Later audits do not change when a booking was first confirmed. -/
theorem firstBookedAt_run (h : d.Recorded) (htakes : d.Along TakesRecords actions)
    (hclock : d.Along ClockForward actions) {bookingReference : Reference} {m : Moment}
    (hfirst : d.firstBookedAt bookingReference = some m) :
    (d.run actions).firstBookedAt bookingReference = some m := by
  obtain ⟨more, haudits, hmore⟩ := auditsFor_run htakes hclock bookingReference
  have hpast : m ≤ d.now := by
    rcases mem_of_foldl_sooner hfirst with hnone | ⟨e, he, rfl⟩
    · cases hnone
    · exact h bookingReference e (List.mem_of_mem_filter he)
  rw [firstBookedAt_eq, haudits, List.filter_append, List.foldl_append, ← firstBookedAt_eq, hfirst]
  exact foldl_sooner_of_le fun e he =>
    le_trans hpast (hmore e (List.mem_of_mem_filter he))

/-- From any point of a run from an empty journal to any later one, what was settled is kept, and
while the clock goes forward so is the moment at which a booking was first confirmed. A run with
restarts takes commits that fit their length fields. -/
theorem history_kept (policy : BookingPolicy) (now : Moment)
    (prisoners : Std.ExtTreeMap String PrisonerContext) (references : ReferenceSource)
    (earlier later : List Action)
    (hrange : (openOn #[] policy now prisoners references).Throughout InRange (earlier ++ later))
    (hfits : .restart ∈ earlier ++ later →
      (openOn #[] policy now prisoners references).Along Fits (earlier ++ later)) :
    let before := (openOn #[] policy now prisoners references).run earlier
    let after := before.run later
    before.store.rows.KeptIn after.store.rows ∧
      ((openOn #[] policy now prisoners references).Along ClockForward (earlier ++ later) →
        ∀ bookingReference m, before.firstBookedAt bookingReference = some m →
          after.firstBookedAt bookingReference = some m) := by
  intro before after
  have hfaithful : (openOn #[] policy now prisoners references).Faithful :=
    faithful_openOn [] rfl (by simp) policy now prisoners references
  obtain ⟨hpast, hfuture⟩ := along_append.mp (along_takesRecords hfaithful hfits)
  have hkept := rows_throughout (P := fun t => before.store.rows.KeptIn t)
    (fun h hkept hc => hkept.trans (keptIn_of_writes h hc)) (.refl _)
    (throughout_append.mp (linked_throughout hrange)).2 (throughout_append.mp hrange).2 hfuture
  refine ⟨hkept.last, fun hclock bookingReference m hfirst => ?_⟩
  obtain ⟨hforward, honward⟩ := along_append.mp hclock
  have hrecorded := (recorded_openOn policy now prisoners references).run hpast hforward
  exact firstBookedAt_run hrecorded hfuture honward hfirst

end Desk

namespace Sample

/-- The small run, and then its draft is booked. -/
def confirmed : List Action := actions ++ [.book "c" "clerk"]

/-- On Monday morning the visit is cancelled. -/
def withdrawal : List Action :=
  [.setClock ⟨monday, time 10 (by decide)⟩, .cancel "b" ⟨.prisonerCancelled, none, "clerk"⟩]

theorem along_withdrawal : desk.Along (Desk.AppendsAtMost 1000) (confirmed ++ withdrawal) := by
  refine ⟨⟨nofun, ?_, ?_⟩, ⟨nofun, ?_, ?_⟩, ⟨nofun, ?_, ?_⟩, ⟨nofun, ?_, ?_⟩, ⟨nofun, ?_, ?_⟩,
    ⟨nofun, ?_, ?_⟩, trivial⟩
  all_goals decide +kernel

end Sample

/-- Booking b was first confirmed on Friday, also when its visit has been cancelled on Monday. -/
theorem Desk.history_kept_sample :
    let before := Sample.desk.run Sample.confirmed
    let after := before.run Sample.withdrawal
    before.store.rows.KeptIn after.store.rows ∧
      (before.store.visit? 1).map (·.status) = some .booked ∧
      (after.store.visit? 1).map (·.status) = some .cancelled ∧
      before.firstBookedAt "b" = some Sample.desk.now ∧
      after.firstBookedAt "b" = some Sample.desk.now := by
  intro before after
  have hrange := Desk.throughout_inRange (m := 0) (by decide) (by decide +kernel)
    Sample.along_withdrawal (by decide)
  have hclock : Sample.desk.Along ClockForward (Sample.confirmed ++ Sample.withdrawal) := by
    refine ⟨trivial, trivial, trivial, trivial, ?_, trivial, trivial⟩
    change before.now ≤ _
    decide +kernel
  obtain ⟨hkept, hfirst⟩ := history_kept Sample.policy _ _ Sample.letters Sample.confirmed
    Sample.withdrawal hrange (by simp [Sample.confirmed, Sample.actions, Sample.withdrawal])
  have hbooked : before.firstBookedAt "b" = some Sample.desk.now := by decide +kernel
  exact ⟨hkept, by decide +kernel, by decide +kernel, hbooked, hfirst hclock _ _ hbooked⟩

end PrisonVisits
