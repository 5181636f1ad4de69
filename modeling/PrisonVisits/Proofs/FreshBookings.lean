import PrisonVisits.Proofs.History
import PrisonVisits.Proofs.VisitIds

/-! # How new a new booking is

A reservation that names no booking draws two references, one after the other, and takes each if no
row has it. The rows are all it looks at. Nothing is saved between the two, so the second can be the
first once more; and audits outlive the rows that a discard deletes, so a new booking can come upon
those of an old one. Either takes a source that repeats itself. -/

namespace PrisonVisits

open Rows

theorem Store.Picks.lt {s : Store} {source between after : ReferenceSource} {i j : Nat}
    (hfirst : s.Picks source between i) (hsecond : s.Picks between after j) : i < j := by
  have hahead := hsecond.ahead
  rw [hfirst.rest] at hahead
  exact hahead

/-- The booking that a record is of. -/
def Record.booking? : Record → Option Reference
  | .applicationSaved a => some a.bookingReference
  | .visitSaved v => some v.reference
  | .audit e => some e.bookingReference
  | _ => none

theorem Record.audit?_eq_some {r : Record} {e : EventAudit} : r.audit? = some e ↔ r = .audit e := by
  cases r <;> simp [audit?]

namespace Rows

/-- All that is stored is of the bookings in the list, and all of them have audits. -/
structure OfBookings (t : Rows) (bookings : List Reference) : Prop where
  applications : ∀ (reference : Reference) (a : Application),
    t.applications[reference]? = some a → a.bookingReference ∈ bookings
  visits : ∀ v, t.HasVisit v → v.reference ∈ bookings
  audits : ∀ booking : Reference, t.audits[booking]?.getD [] ≠ [] ↔ booking ∈ bookings

theorem ofBookings_empty : Store.empty.rows.OfBookings [] where
  applications reference a ha := by simp [Store.rows, Store.empty] at ha
  visits v hv := absurd hv (not_hasVisit_empty v)
  audits booking := by simp [Store.rows, Store.empty]

/-- A commit may bring new bookings, each with an audit. -/
theorem OfBookings.applyCommit {t : Rows} {old new : List Reference} {c : Commit}
    (h : t.OfBookings old) (hold : ∀ b ∈ old, b ∈ new)
    (hc : ∀ r ∈ c, ∀ b, r.booking? = some b → b ∈ new)
    (hnew : ∀ b ∈ new, b ∈ old ∨ ∃ e, .audit e ∈ c ∧ e.bookingReference = b) :
    (t.applyCommit c).OfBookings new where
  applications reference a ha := by
    rcases application_of_applyCommit ha with ⟨hsaved, -⟩ | ⟨hstored, -⟩
    · exact hc _ hsaved _ rfl
    · exact hold _ (h.applications reference a hstored)
  visits v hv := hasVisit_applyCommit (q := fun v => v.reference ∈ new)
    (fun v hv => hold _ (h.visits v hv)) (fun v hv => hc _ hv _ rfl) hv
  audits booking := by
    have hadded : ((c.filterMap Record.audit?).filter fun e => e.bookingReference = booking) ≠ [] ↔
        ∃ e, .audit e ∈ c ∧ e.bookingReference = booking := by
      simp [List.filter_eq_nil_iff, Record.audit?_eq_some]
    rw [audits_applyCommit, Ne, List.append_eq_nil_iff, Classical.not_and_iff_not_or_not,
      ← Ne, ← Ne, hadded, h.audits booking]
    constructor
    · rintro (hb | ⟨e, he, rfl⟩)
      · exact hold _ hb
      · exact hc _ he _ rfl
    · exact hnew booking

end Rows

namespace Desk

variable {d : Desk} {a : Action} {c : Commit} {x : Application} {bookings : List Reference}
  {b : Reference}

/-! ## One action -/

theorem booking_of_start {o : SessionOccurrence} {r : Record} (hr : r ∈ (d.start x o).records) :
    r.booking? = some x.bookingReference := by
  simp only [start, List.mem_cons, List.not_mem_nil, or_false] at hr
  rcases hr with rfl | rfl | rfl <;> rfl

theorem booking_of_discardRecords {draft : Option Visit} {actionedBy : String} {now : Moment}
    {r : Record} (hr : r ∈ x.discardRecords draft actionedBy now) (hb : r.booking? = some b) :
    b = x.bookingReference := by
  simp only [Application.discardRecords, List.cons_append, List.mem_cons, List.mem_append,
    List.mem_map, List.not_mem_nil, or_false] at hr
  rcases hr with rfl | ⟨v, -, rfl⟩ | rfl
  · cases hb
  · cases hb
  · exact (Option.some.inj hb).symm

theorem booking_of_amend (h : d.store.Linked) (hof : d.store.rows.OfBookings bookings)
    {reference : Reference} {m : Amendment} {existing placed : Application} {draft moved : Visit}
    {slot : Slot} {actionedBy : String}
    (hstored : d.store.application? reference = some existing)
    (hdrafted : d.store.draft? reference = some draft)
    (hplaced : d.placeAmended (m.people existing) draft slot = .ok (placed, moved)) {r : Record}
    (hr : r ∈ [.applicationSaved (placed.touched d.now),
      .visitSaved ((placed.touched d.now).bring moved d.now),
      (placed.touched d.now).audit .amendedApplication actionedBy d.now])
    (hb : r.booking? = some b) : b ∈ bookings := by
  have hsame := sameRows_of_placeAmended hplaced
  have hbooking : b = placed.bookingReference ∨ b = moved.reference := by
    simp only [List.mem_cons, List.not_mem_nil, or_false] at hr
    rcases hr with rfl | rfl | rfl <;> cases hb
    · exact .inl rfl
    · exact .inr rfl
    · exact .inl rfl
  have hmem := hof.applications reference existing hstored
  rcases hbooking with rfl | rfl
  · rwa [hsame.booking]
  · rwa [hsame.draftBooking.trans (h.drafts hstored hdrafted).booking]

theorem booking_of_book (h : d.store.Linked) (hof : d.store.rows.OfBookings bookings)
    {reference : Reference} {existing : Application} {draft : Visit} {actionedBy : String}
    (hstored : d.store.application? reference = some existing)
    (hdrafted : d.store.draft? reference = some draft) {r : Record}
    (hr : r ∈ (d.store.bookedVisit? existing.bookingReference).toList.flatMap
        (supersedeRecords · actionedBy d.now) ++
      [.visitSaved (existing.booked draft d.now), .applicationSaved (existing.complete d.now),
        existing.bookedAudit (existing.booked draft d.now) actionedBy d.now])
    (hb : r.booking? = some b) : b ∈ bookings := by
  rcases List.mem_append.mp hr with hr | hr
  · obtain ⟨old, hold, hr⟩ := List.mem_flatMap.mp hr
    obtain ⟨hrow, -⟩ := h.sound.of_bookedVisit? (Option.mem_toList.mp hold)
    simp only [supersedeRecords, List.mem_cons, List.not_mem_nil, or_false] at hr
    rcases hr with rfl | rfl <;> cases hb <;> exact hof.visits old hrow
  · obtain ⟨hrow, -⟩ := h.sound.of_draft? hdrafted
    simp only [List.mem_cons, List.not_mem_nil, or_false] at hr
    rcases hr with rfl | rfl | rfl <;> cases hb
    · exact hof.visits draft hrow
    · exact hof.applications reference existing hstored
    · exact hof.applications reference existing hstored

theorem booking_of_cancel (h : d.store.Linked) (hof : d.store.rows.OfBookings bookings)
    {bookingReference : Reference} {target : Visit} (htarget : d.store.rows.HasVisit target)
    {cancellation : Cancellation} {r : Record}
    (hr : r ∈ d.cancelRecords (d.store.visitsForReference bookingReference) target cancellation)
    (hb : r.booking? = some b) : b ∈ bookings := by
  rw [cancelRecords_eq_append h _ htarget] at hr
  simp only [List.mem_cons, List.mem_append] at hr
  rcases hr with rfl | hr | rfl | hr
  · cases hb
    exact hof.visits target htarget
  · split at hr
    · rw [List.mem_singleton.mp hr] at hb
      cases hb
    · cases hr
  · cases hb
    exact hof.visits target htarget
  · obtain ⟨v, hv, hr⟩ := List.mem_flatMap.mp hr
    obtain ⟨⟨hrow, -⟩, hdraft, -⟩ := (mem_pendingOf h.sound).mp hv
    obtain ⟨y, hy, -, hrecords⟩ := discardPending_eq_discardRecords h hrow hdraft
      cancellation.actionedBy
    rw [hrecords] at hr
    rw [booking_of_discardRecords hr hb]
    exact hof.applications _ y hy

/-- Only a reservation that names no booking commits anything of a new one. -/
theorem booking_of_writes (h : d.store.Linked) (hof : d.store.rows.OfBookings bookings)
    (hc : d.Writes a c) (hnames : ∀ r, a = .reserve r → r.bookingReference ≠ none) {r : Record}
    (hr : r ∈ c) (hb : r.booking? = some b) : b ∈ bookings := by
  cases hc with
  | createGroup | updateGroup | deleteGroup | createTemplate | updateTemplate
  | setTemplateActive | deleteTemplate =>
    rw [List.mem_singleton.mp hr] at hb
    cases hb
  | reserve counts booking known admits unused =>
    cases (booking_of_start hr).symm.trans hb
    cases booking with
    | fresh asked => exact absurd asked (hnames _ rfl)
    | again asked known own =>
      obtain ⟨hrow, hreference⟩ := h.sound.mem_visitsForReference.mp (List.mem_of_head? known)
      exact hreference ▸ hof.visits _ hrow
  | change counts found known admits unused =>
    cases (booking_of_start hr).symm.trans hb
    obtain ⟨hrow, hreference, -⟩ := h.sound.of_bookedVisit? found
    have hmem := hof.visits _ hrow
    rwa [hreference] at hmem
  | amend stored incomplete drafted counts placing =>
    exact booking_of_amend h hof stored drafted placing hr hb
  | book stored incomplete bookable drafted left applies =>
    exact booking_of_book h hof stored drafted hr hb
  | cancel outcome short live =>
    exact booking_of_cancel h hof (h.sound.of_cancellationTarget live).1 hr hb
  | discard stored incomplete =>
    rw [booking_of_discardRecords hr hb]
    exact hof.applications _ _ stored
  | expire stored incomplete stale =>
    rw [booking_of_discardRecords hr hb]
    exact hof.applications _ _ stored

/-- The application that opens a new booking. -/
def opens (d : Desk) : Action → Option Application
  | .reserve r => if r.bookingReference = none then (d.reserve r).1.toOption else none
  | _ => none

theorem opens_eq_some : d.opens a = some x ↔
    ∃ r, a = .reserve r ∧ r.bookingReference = none ∧ d.creates a = some x := by
  cases a <;> simp [opens, creates]

/-- The bookings that a run opens, one after the other. -/
def openedAlong : Desk → List Action → List Reference
  | _, [] => []
  | d, a :: actions =>
    ((d.opens a).map (·.bookingReference)).toList ++ (d.perform a).openedAlong actions

theorem ofBookings_recordsOf (hof : d.store.rows.OfBookings bookings) (h : d.store.Linked)
    (hids : d.store.nextVisitId + 1 ≠ 0) (a : Action) :
    (d.store.rows.applyCommit (d.recordsOf a)).OfBookings
      (bookings ++ ((d.opens a).map (·.bookingReference)).toList) := by
  cases hopens : d.opens a with
  | none =>
    rw [Option.map_none, Option.toList_none, List.append_nil]
    by_cases hnil : d.recordsOf a = []
    · rw [hnil]
      exact hof
    · have hnames : ∀ r, a = .reserve r → r.bookingReference ≠ none := by
        rintro r rfl hnew
        obtain ⟨x, hx⟩ := Option.isSome_iff_exists.mp (creates_of_starts rfl hnil)
        cases hopens.symm.trans (opens_eq_some.mpr ⟨r, rfl, hnew, hx⟩)
      exact keeps_recordsOf (P := fun t => t.OfBookings bookings) hof h hids a
        fun he hP hw _ => hP.applyCommit (fun _ hb => hb)
          (fun _ hr _ hb => booking_of_writes he hP hw hnames hr hb) fun _ hb => .inl hb
  | some x =>
    obtain ⟨r, rfl, -, hcreates⟩ := opens_eq_some.mp hopens
    obtain ⟨o, hrecords, -⟩ := start_of_creates hcreates
    rw [hrecords]
    refine hof.applyCommit (fun b hb => List.mem_append_left _ hb) (fun r hr b hb => ?_)
      fun b hb => ?_
    · cases (booking_of_start hr).symm.trans hb
      exact List.mem_append_right _ List.mem_cons_self
    · refine (List.mem_append.mp hb).imp_right fun hb => ?_
      rw [List.mem_singleton.mp hb]
      exact ⟨_, List.mem_cons_of_mem _ (List.mem_cons_of_mem _ List.mem_cons_self), rfl⟩

/-! ## The references that are drawn -/

theorem picks_of_planReserve {r : ReserveRequest} {source source' : ReferenceSource}
    {t : Transition Application} (hnew : r.bookingReference = none)
    (h : (d.planReserve r).run.run source = (.ok t, source')) :
    ∃ i j between, d.store.Picks source between i ∧ d.store.Picks between source' j ∧
      t.answer.bookingReference = source.reference i ∧
      t.answer.reference = source.reference j := by
  unfold planReserve at h
  obtain ⟨_, _, hcounts, h⟩ := Plan.run_bind_eq_ok.mp h
  obtain ⟨bookingReference, between, hbooking, h⟩ := Plan.run_bind_eq_ok.mp h
  obtain ⟨o, _, hheld, h⟩ := Plan.run_bind_eq_ok.mp h
  obtain ⟨reference, _, hfresh, h⟩ := Plan.run_bind_eq_ok.mp h
  cases h
  obtain ⟨-, rfl⟩ := Plan.run_lift_eq_ok hcounts
  obtain ⟨-, rfl⟩ := Plan.run_lift_eq_ok hheld
  rw [bookingFor, hnew] at hbooking
  obtain ⟨i, hfirst, hi⟩ := Store.picks_of_freshReference hbooking
  obtain ⟨j, hsecond, hj⟩ := Store.picks_of_freshReference hfresh
  refine ⟨i, j, between, hfirst, hsecond, hi, ?_⟩
  rw [hfirst.rest] at hj
  exact hj

/-- The references of a new booking and its application are drawn one after the other, and both by
what is stored beforehand. -/
theorem picks_of_opens (h : d.opens a = some x) :
    ∃ i j between, d.store.Picks d.references between i ∧
      d.store.Picks between (d.perform a).references j ∧
      x.bookingReference = d.references.reference i ∧ x.reference = d.references.reference j := by
  obtain ⟨r, rfl, hnew, hcreates⟩ := opens_eq_some.mp h
  obtain ⟨t, source, hrun, rfl⟩ := run_of_answer hcreates
  rw [(recordsOf_of_run (a := .reserve r) rfl hrun).2]
  exact picks_of_planReserve hnew hrun

/-! ## Runs -/

theorem gave_of_opens (h : d.opens a = some x) :
    d.references.Gave (d.perform a).references x.bookingReference := by
  obtain ⟨i, j, between, hfirst, hsecond, hbooking, -⟩ := picks_of_opens h
  refine ⟨i, hfirst.ahead, ?_, hbooking⟩
  rw [hsecond.rest]
  exact Nat.lt_succ_of_lt (hfirst.lt hsecond)

/-- The references of the bookings that a run opens were drawn in its course. -/
theorem gave_of_mem_openedAlong {actions : List Action} (hb : b ∈ d.openedAlong actions) :
    d.references.Gave (d.run actions).references b := by
  induction actions generalizing d with
  | nil => cases hb
  | cons a actions ih =>
    rcases List.mem_append.mp hb with hb | hb
    · obtain ⟨x, hx, rfl⟩ := Option.map_eq_some_iff.mp (Option.mem_toList.mp hb)
      obtain ⟨i, hle, hlt, heq⟩ := gave_of_opens hx
      exact ⟨i, hle, Nat.lt_of_lt_of_le hlt ((d.perform a).later_run actions).drawn, heq⟩
    · exact (ih hb).earlier (d.later_perform a)

theorem ofBookings_run {actions : List Action} (hof : d.store.rows.OfBookings bookings)
    (hlinked : d.Throughout (fun d => d.store.Linked) actions)
    (hrange : d.Throughout InRange actions) (htakes : d.Along TakesRecords actions) :
    (d.run actions).store.rows.OfBookings (bookings ++ d.openedAlong actions) := by
  induction actions generalizing d bookings with
  | nil => rwa [openedAlong, List.append_nil]
  | cons a actions ih =>
    rw [openedAlong, ← List.append_assoc]
    refine ih ?_ hlinked.2 hrange.2 htakes.2
    rw [htakes.1]
    exact ofBookings_recordsOf hof hlinked.1 hrange.1.ids a

/-- How new a booking and its application are behind a run that has opened others. -/
structure OpensNew (d : Desk) (opened : List Reference) (x : Application) : Prop where
  booking : d.store.Unused x.bookingReference
  application : d.store.Unused x.reference
  audits : d.store.auditsFor x.bookingReference = [] ↔ x.bookingReference ∉ opened
  drawn : ∃ i j between after, d.store.Picks d.references between i ∧
    d.store.Picks between after j ∧ x.bookingReference = d.references.reference i ∧
    x.reference = d.references.reference j

theorem opensNew_of_opens (h : d.store.Sound) (hof : d.store.rows.OfBookings bookings)
    (hopens : d.opens a = some x) : d.OpensNew bookings x := by
  obtain ⟨i, j, between, hfirst, hsecond, hbooking, happlication⟩ := picks_of_opens hopens
  have hsame : between.reference = d.references.reference := by rw [hfirst.rest]
  refine ⟨h.unused ?_, h.unused ?_, (not_iff_comm.mp (hof.audits x.bookingReference)).symm,
    i, j, between, _, hfirst, hsecond, hbooking, happlication⟩
  · rw [hbooking]
    exact hfirst.unused
  · rw [happlication, ← hsame]
    exact hsecond.unused

/-- Behind every run from an empty journal, a reservation that names no booking takes two references
that no row has. There are audits of its booking already exactly if the run has opened one under
the same reference; and its application has the reference of the booking if the source repeats it as
the next one that is unused. A source without repetitions does neither. A run with restarts takes
commits that fit their length fields. -/
theorem opensNew_of_reserve (policy : BookingPolicy) (now : Moment)
    (prisoners : Std.ExtTreeMap String PrisonerContext) (source : ReferenceSource)
    (actions : List Action)
    (hrange : (openOn #[] policy now prisoners source).Throughout InRange actions)
    (hfits : .restart ∈ actions → (openOn #[] policy now prisoners source).Along Fits actions)
    {r : ReserveRequest} (hnew : r.bookingReference = none) {x : Application}
    (hx : (((openOn #[] policy now prisoners source).run actions).reserve r).1 = .ok x) :
    ((openOn #[] policy now prisoners source).run actions).OpensNew
        ((openOn #[] policy now prisoners source).openedAlong actions) x ∧
      (Function.Injective source.reference →
        ((openOn #[] policy now prisoners source).run actions).store.auditsFor
            x.bookingReference = [] ∧ x.reference ≠ x.bookingReference) := by
  have hlinked := linked_throughout hrange
  have hsound := hlinked.last.sound
  have hempty : (openOn #[] policy now prisoners source).store.rows.OfBookings [] := by
    rw [store_openOn_nil]
    exact ofBookings_empty
  have hof := ofBookings_run hempty hlinked hrange
    (along_takesRecords (faithful_openOn [] rfl (by simp) policy now prisoners source) hfits)
  rw [List.nil_append] at hof
  have hopens : ((openOn #[] policy now prisoners source).run actions).opens (.reserve r) =
      some x := by
    rw [opens, if_pos hnew, hx]
    rfl
  have hopensNew := opensNew_of_opens hsound hof hopens
  refine ⟨hopensNew, fun hrepeats => ?_⟩
  have hlater := (openOn #[] policy now prisoners source).later_run actions
  obtain ⟨i, j, between, after, hfirst, hsecond, hbooking, happlication⟩ := hopensNew.drawn
  rw [hlater.reference] at hbooking happlication
  constructor
  · refine hopensNew.audits.mpr fun hopened => ?_
    obtain ⟨k, -, hk, heq⟩ := gave_of_mem_openedAlong hopened
    have hki : k = i := hrepeats (heq.symm.trans hbooking)
    have hahead := hfirst.ahead
    omega
  · intro hsame
    have hij : i = j := hrepeats (hbooking.symm.trans (hsame.symm.trans happlication))
    exact absurd hij (Nat.ne_of_lt (hfirst.lt hsecond))

end Desk

namespace Sample

/-- Reference a, and then nothing but b. -/
def stuttering : ReferenceSource := ⟨fun n => if n = 0 then "a" else "b", 0⟩

def stutteringDesk : Desk := .openOn #[] policy desk.now ∅ stuttering

/-- Application b for booking b is made and discarded. -/
def discarded : List Action := actions ++ [.discard "b" "clerk"]

theorem along_discarded : stutteringDesk.Along (Desk.AppendsAtMost 1000) discarded := by
  refine ⟨⟨nofun, ?_, ?_⟩, ⟨nofun, ?_, ?_⟩, ⟨nofun, ?_, ?_⟩, ⟨nofun, ?_, ?_⟩, trivial⟩
  all_goals decide +kernel

end Sample

/-- The second booking b comes upon the audits of the first one, and both have an application b. -/
theorem Desk.opensNew_of_reserve_again :
    let d := Sample.stutteringDesk.run Sample.discarded
    Sample.stutteringDesk.Throughout InRange Sample.discarded ∧
      Sample.reservation.bookingReference = none ∧
      ∃ x, (d.reserve Sample.reservation).1 = .ok x ∧ d.OpensNew ["b"] x ∧
        x.bookingReference = "b" ∧ x.reference = "b" ∧ d.store.auditsFor "b" ≠ [] := by
  have hrange := Desk.throughout_inRange (m := 0) (by decide) (by decide +kernel)
    Sample.along_discarded (by decide)
  have hopened : Sample.stutteringDesk.openedAlong Sample.discarded = ["b"] := by decide +kernel
  have hanswer : ((Sample.stutteringDesk.run Sample.discarded).reserve Sample.reservation).1.map
      (fun x => (x.bookingReference, x.reference)) = .ok ("b", "b") := by
    decide +kernel
  obtain ⟨x, hx, hnamed⟩ := map_eq_ok.mp hanswer
  obtain ⟨hbooking, hreference⟩ := Prod.mk.inj hnamed
  obtain ⟨hopens, -⟩ := opensNew_of_reserve Sample.policy _ _ Sample.stuttering Sample.discarded
    hrange (by simp [Sample.discarded, Sample.actions]) rfl hx
  have hopens' : (Sample.stutteringDesk.run Sample.discarded).OpensNew ["b"] x := hopened ▸ hopens
  refine ⟨hrange, rfl, x, hx, hopens', hbooking, hreference, fun hnone => ?_⟩
  exact hopens'.audits.mp (hbooking ▸ hnone) (by rw [hbooking]; exact List.mem_cons_self)

end PrisonVisits
