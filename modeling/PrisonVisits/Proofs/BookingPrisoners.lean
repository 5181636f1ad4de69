import PrisonVisits.Proofs.History
import PrisonVisits.Proofs.Pairing

/-! # One prisoner per booking

A reservation under a known reference looks at one visit of the booking only, a change takes over
the prisoner of the booked visit, and an amendment leaves the prisoner alone. That is enough if all
visits of the booking agree. Applications follow the visits: an incomplete one says what its draft
says, and of a completed one a visit is left for good, so that its booking reference is not given
out again. -/

namespace PrisonVisits

open Rows

/-- All that is stored of the booking is of the prisoner. -/
structure Store.BelongsTo (s : Store) (booking : Reference) (prisonerId : String) : Prop where
  visits : ∀ v ∈ s.visitsForReference booking, v.prisonerId = prisonerId
  applications : ∀ (reference : Reference) (a : Application),
    s.application? reference = some a → a.bookingReference = booking → a.prisonerId = prisonerId

/-- The visit is of the application's booking and prisoner. -/
structure Application.Shares (a : Application) (v : Visit) : Prop where
  booking : v.reference = a.bookingReference
  prisoner : v.prisonerId = a.prisonerId

namespace Rows

/-- The visits of a booking are of one prisoner. -/
def OnePrisoner (t : Rows) : Prop :=
  ∀ v w, t.HasVisit v → t.HasVisit w → v.reference = w.reference → v.prisonerId = w.prisonerId

/-- Of every completed application a visit is left that is booked or cancelled. -/
def Attested (t : Rows) : Prop :=
  ∀ (reference : Reference) (a : Application), t.applications[reference]? = some a →
    a.completed = true → ∃ v, t.HasVisit v ∧ v.isDraft = false ∧ a.Shares v

theorem onePrisoner_empty : Store.empty.rows.OnePrisoner :=
  fun v _ hv => absurd hv (not_hasVisit_empty v)

theorem attested_empty : Store.empty.rows.Attested := by
  intro reference a ha
  simp [Store.rows, Store.empty] at ha

end Rows

namespace Desk

variable {d : Desk} {a : Action} {c : Commit}

/-! ## One action -/

/-- A visit behind an action is of the booking and prisoner of one before it, or it is the first of
its booking. -/
theorem kin_of_writes (h : d.store.Linked) (hc : d.Writes a c) {w : Visit}
    (hw : (d.store.rows.applyCommit c).HasVisit w) :
    (∃ v, d.store.rows.HasVisit v ∧ v.reference = w.reference ∧ v.prisonerId = w.prisonerId) ∨
      w.id = d.store.nextVisitId ∧ ∀ v, d.store.rows.HasVisit v → v.reference ≠ w.reference := by
  refine hasVisit_applyCommit (q := fun w => (∃ v, d.store.rows.HasVisit v ∧
      v.reference = w.reference ∧ v.prisonerId = w.prisonerId) ∨
    w.id = d.store.nextVisitId ∧ ∀ v, d.store.rows.HasVisit v → v.reference ≠ w.reference)
    (fun v hv => .inl ⟨v, hv, rfl, rfl⟩) (fun x hx => ?_) hw
  cases saves_of_writes h hc hx with
  | new next draft booking changes =>
    rcases booking with hfirst | hkin
    · exact .inr ⟨next, hfirst⟩
    · exact .inl hkin
  | renewed stored draft id booking prisoner status =>
    exact .inl ⟨_, stored, booking.symm, prisoner.symm⟩
  | ended stored live outcome notes end_eq =>
    rw [end_eq]
    exact .inl ⟨_, stored, rfl, rfl⟩

theorem onePrisoner_of_writes (h : d.store.Linked) (hone : d.store.rows.OnePrisoner)
    (hc : d.Writes a c) : (d.store.rows.applyCommit c).OnePrisoner := by
  intro v w hv hw hsame
  rcases kin_of_writes h hc hv with ⟨x, hx, hxv, hxp⟩ | ⟨hvid, hvfirst⟩ <;>
    rcases kin_of_writes h hc hw with ⟨y, hy, hyw, hyp⟩ | ⟨hwid, hwfirst⟩
  · rw [← hxp, ← hyp]
    exact hone x y hx hy (hxv.trans (hsame.trans hyw.symm))
  · exact absurd (hxv.trans hsame) (hwfirst x hx)
  · exact absurd (hyw.trans hsame.symm) (hvfirst y hy)
  · rw [hv.unique hw (hvid.trans hwid.symm)]

/-- An application is completed along with a visit that is booked for it. -/
theorem booked_of_completed (h : d.store.Linked) (hc : d.Writes a c) {x : Application}
    (hx : .applicationSaved x ∈ c) (hdone : x.completed = true) :
    ∃ v, .visitSaved v ∈ c ∧ v.isBooked = true ∧ x.Shares v := by
  cases hc with
  | createGroup | updateGroup | deleteGroup | createTemplate | updateTemplate
  | setTemplateActive | deleteTemplate => simp at hx
  | reserve | change =>
    simp only [start, Application.audit, List.mem_cons, Record.applicationSaved.injEq,
      reduceCtorEq, List.not_mem_nil, or_false] at hx
    rw [hx] at hdone
    cases hdone
  | amend stored incomplete drafted counts placing =>
    simp only [Application.audit, List.mem_cons, Record.applicationSaved.injEq, reduceCtorEq,
      List.not_mem_nil, or_false] at hx
    rw [hx] at hdone
    cases ((sameRows_of_placeAmended placing).completed.trans incomplete).symm.trans hdone
  | @book reference actionedBy existing draft stored incomplete bookable drafted left applies =>
    have hsame : x = existing.complete d.now := by
      simpa [supersedeRecords, Visit.cancelledAudit, Application.bookedAudit] using hx
    have hdrafts := h.drafts stored drafted
    rw [hsame]
    exact ⟨existing.booked draft d.now, by simp, rfl, hdrafts.booking, hdrafts.prisoner⟩
  | cancel outcome short live =>
    obtain ⟨audit, hrecords⟩ :=
      cancelRecords_eq h _ (h.sound.of_cancellationTarget live).1 _
    rw [hrecords] at hx
    simp only [List.mem_cons, List.mem_append, reduceCtorEq, false_or] at hx
    rcases hx with hx | hx
    · split at hx <;> simp at hx
    · obtain ⟨v, -, -, -, hr | hr | ⟨_, hr⟩, -⟩ := mem_pendingRecords h hx <;> cases hr
  | discard | expire => simp [Application.discardRecords, Application.audit] at hx

theorem attested_of_writes (h : d.store.Linked) (hattested : d.store.rows.Attested)
    (hc : d.Writes a c) : (d.store.rows.applyCommit c).Attested := by
  intro reference x hx hdone
  rcases application_of_applyCommit hx with ⟨hsaved, -⟩ | ⟨hstored, -⟩
  · obtain ⟨v, hv, hbooked, hshares⟩ := booked_of_completed h hc hsaved hdone
    exact ⟨v, hasVisit_of_saved h hc hv, Visit.isDraft_of_isBooked hbooked, hshares⟩
  · obtain ⟨v, hv, hsettled, hshares⟩ := hattested reference x hstored hdone
    rcases settled_of_writes h hc hv hsettled with hstays | ⟨-, outcome, notes, -, hended⟩
    · exact ⟨v, hstays, hsettled, hshares⟩
    · exact ⟨_, hended, rfl, hshares.booking, hshares.prisoner⟩

end Desk

/-! ## What is stored -/

namespace Store

variable {s : Store}

/-- An application has a visit of its booking and prisoner. -/
theorem exists_shares (h : s.Linked) (hbacked : s.rows.Backed) (hattested : s.rows.Attested)
    {reference : Reference} {a : Application} (ha : s.application? reference = some a) :
    ∃ v, s.rows.HasVisit v ∧ a.Shares v := by
  cases hdone : a.completed with
  | true =>
    obtain ⟨v, hv, -, hshares⟩ := hattested reference a ha hdone
    exact ⟨v, hv, hshares⟩
  | false =>
    obtain ⟨-, v, hv, -, -, -, hdrafts⟩ := (h.paired hbacked).draft reference a ha hdone
    exact ⟨v, (h.sound.visitForApplication hv).1, hdrafts.booking, hdrafts.prisoner⟩

theorem exists_belongsTo (h : s.Linked) (hbacked : s.rows.Backed) (hattested : s.rows.Attested)
    (hone : s.rows.OnePrisoner) (booking : Reference) :
    ∃ prisonerId, s.BelongsTo booking prisonerId := by
  by_cases hknown : ∃ v, s.rows.HasVisit v ∧ v.reference = booking
  · obtain ⟨v, hv, rfl⟩ := hknown
    refine ⟨v.prisonerId, fun w hw => ?_, fun reference a ha hbooking => ?_⟩
    · obtain ⟨hrow, hreference⟩ := h.sound.mem_visitsForReference.mp hw
      exact hone w v hrow hv hreference
    · obtain ⟨w, hw, hshares⟩ := exists_shares h hbacked hattested ha
      rw [← hshares.prisoner]
      exact hone w v hw hv (hshares.booking.trans hbooking)
  · -- nothing is stored of the booking
    refine ⟨"", fun w hw => ?_, fun reference a ha hbooking => ?_⟩
    · exact absurd ⟨w, h.sound.mem_visitsForReference.mp hw⟩ hknown
    · obtain ⟨w, hw, hshares⟩ := exists_shares h hbacked hattested ha
      exact absurd ⟨w, hw, hshares.booking.trans hbooking⟩ hknown

end Store

/-! ## Runs -/

namespace Desk

/-- All along every run from an empty journal each booking belongs to one prisoner, its visits and
its applications alike. A run with restarts takes commits that fit their length fields. -/
theorem belongsTo_throughout (policy : BookingPolicy) (now : Moment)
    (prisoners : Std.ExtTreeMap String PrisonerContext) (references : ReferenceSource)
    (actions : List Action)
    (hrange : (openOn #[] policy now prisoners references).Throughout InRange actions)
    (hfits : .restart ∈ actions →
      (openOn #[] policy now prisoners references).Along Fits actions) :
    (openOn #[] policy now prisoners references).Throughout
      (fun d => ∀ booking, ∃ prisonerId, d.store.BelongsTo booking prisonerId) actions := by
  have hrows := rows_throughout_openOn (P := fun t => t.Backed ∧ t.Attested ∧ t.OnePrisoner)
    (fun h hP hc => ⟨backed_of_writes h hP.1 hc, attested_of_writes h hP.2.1 hc,
      onePrisoner_of_writes h hP.2.2 hc⟩)
    ⟨anchored_empty.backed, attested_empty, onePrisoner_empty⟩ hrange hfits
  exact hrows.imp fun d h booking =>
    Store.exists_belongsTo h.1 h.2.1 h.2.2.1 h.2.2.2 booking

end Desk

namespace Sample

/-- Another visit is reserved under booking b. -/
def reservedAgain : List Action :=
  confirmed ++ [.reserve { reservation with bookingReference := some "b" }]

theorem along_reservedAgain : desk.Along (Desk.AppendsAtMost 1000) reservedAgain := by
  refine ⟨⟨nofun, ?_, ?_⟩, ⟨nofun, ?_, ?_⟩, ⟨nofun, ?_, ?_⟩, ⟨nofun, ?_, ?_⟩, ⟨nofun, ?_, ?_⟩,
    trivial⟩
  all_goals decide +kernel

end Sample

/-- Both visits of booking b are of the prisoner to whom all of the booking belongs. -/
theorem Desk.belongsTo_throughout_sample :
    ((Sample.desk.run Sample.reservedAgain).store.visitsForReference "b").map (·.id) = [1, 2] ∧
      (Sample.desk.run Sample.reservedAgain).store.BelongsTo "b" "A0001AA" := by
  have hrange := Desk.throughout_inRange (m := 0) (by decide) (by decide +kernel)
    Sample.along_reservedAgain (by decide)
  obtain ⟨prisonerId, hbelongs⟩ := (belongsTo_throughout Sample.policy _ _ Sample.letters
    Sample.reservedAgain hrange
    (by simp [Sample.reservedAgain, Sample.confirmed, Sample.actions])).last "b"
  have hvisits : ((Sample.desk.run Sample.reservedAgain).store.visitsForReference "b").map
      (fun v => (v.id, v.prisonerId)) = [(1, "A0001AA"), (2, "A0001AA")] := by
    decide +kernel
  refine ⟨by decide +kernel, ?_⟩
  have hmem : ((1 : UInt64), "A0001AA") ∈
      ((Sample.desk.run Sample.reservedAgain).store.visitsForReference "b").map
        (fun v => (v.id, v.prisonerId)) := by
    rw [hvisits]
    exact List.mem_cons_self
  obtain ⟨v, hv, hfacts⟩ := List.mem_map.mp hmem
  rw [← (Prod.mk.inj hfacts).2, hbelongs.visits v hv]
  exact hbelongs

end PrisonVisits
