import PrisonVisits.Proofs.DrawnReferences
import PrisonVisits.Proofs.SeatCounts
import PrisonVisits.Proofs.SessionLists

/-! # What is listed can be reserved

A prisoner may hold a slot only in a session that a query of the day lists for that prisoner, and in
a listed session only the seats decide. So the list tells beforehand what comes of a reservation,
but for the drafts of changes, which it does not count. -/

namespace PrisonVisits

open Plan

/-- Asks for the sessions of a prison on one day, for one prisoner. -/
def SessionQuery.onDay (prisonCode prisonerId : String) (date : Date) : SessionQuery :=
  ⟨prisonCode, some prisonerId, date, date⟩

/-- A request that draws so many references gets them. -/
def Store.supplies (s : Store) : Nat → ReferenceSource → Bool
  | 0, _ => true
  | n + 1, source =>
    match s.drawUnused Limits.maxReferenceAttempts source with
    | (some _, source) => s.supplies n source
    | (none, _) => false

theorem Store.supplies_succ {s : Store} {n : Nat} {source : ReferenceSource} :
    s.supplies (n + 1) source = true ↔ ∃ reference source',
      s.freshReference.run.run source = (.ok reference, source') ∧ s.supplies n source' = true := by
  rw [supplies, run_freshReference_eq]
  generalize s.drawUnused Limits.maxReferenceAttempts source = drawn
  obtain ⟨_ | reference, source'⟩ := drawn
  · exact ⟨nofun, fun ⟨_, _, hrun, _⟩ => by cases hrun⟩
  · exact ⟨fun h => ⟨_, _, rfl, h⟩, fun ⟨_, _, hrun, h⟩ => by cases hrun; exact h⟩

namespace Desk

variable {d : Desk}

/-! ## Listed sessions are those that are open -/

theorem queryContext_onDay {prisonCode prisonerId : String} {date : Date}
    {context : Option PrisonerContext} :
    d.queryContext (.onDay prisonCode prisonerId date) = .ok context ↔
      ∃ known, context = some known ∧ d.prisoners[prisonerId]? = some known ∧
        known.prisonCode = prisonCode := by
  simp only [queryContext, SessionQuery.onDay, bind_eq_ok, pure_eq_ok, require_eq_ok,
    prisoner_eq_ok, beq_iff_eq]
  constructor
  · rintro ⟨known, hknown, _, hheld, rfl⟩
    exact ⟨known, rfl, hknown, hheld⟩
  · rintro ⟨known, rfl, hknown, hheld⟩
    exact ⟨known, hknown, (), hheld, rfl⟩

section

variable (h : d.store.Sound) (hgrouped : d.store.rows.Grouped) {T : SessionTemplate} {slot : Slot}
  (hstored : d.store.template? slot.template = some T) {prisonerId : String}

include h hgrouped hstored

/-- A session that is listed for a prisoner is open to the prisoner. -/
theorem opens_of_listed {sessions : List OfferedSession} {s : OfferedSession}
    (hsessions : d.sessions (.onDay T.prisonCode prisonerId slot.date) = .ok sessions)
    (hs : s ∈ sessions) (hof : s.isOf slot.template slot.date = true) :
    s = d.offered T slot.date ∧
      ∃ context, d.prisoners[prisonerId]? = some context ∧ d.Opens context T slot := by
  obtain ⟨-, _, earliest, latest, hcontext, hwindow, -⟩ :=
    (sessions_eq_ok h hgrouped).mp hsessions
  obtain ⟨context, rfl, hknown, hheld⟩ := queryContext_onDay.mp hcontext
  obtain ⟨t, date, ht, -, hoffers, hfires, -, -, hearliest, hlatest, rfl⟩ :=
    (mem_sessions h hgrouped hsessions hcontext hwindow).mp hs
  obtain ⟨hreference, rfl⟩ : t.reference = slot.template ∧ date = slot.date := by
    simpa [OfferedSession.isOf, offered, SessionTemplate.occurrence] using hof
  rw [hreference, hstored] at ht
  cases ht
  obtain ⟨hactive, heligible⟩ := offers_eq_true.mp hoffers
  exact ⟨rfl, context, hknown, hstored, hactive, hheld.symm, hfires,
    ⟨earliest, latest, hwindow, hearliest, hlatest⟩, heligible⟩

/-- A session that is open to a prisoner is listed for the prisoner. -/
theorem listed_of_opens {context : PrisonerContext}
    (hknown : d.prisoners[prisonerId]? = some context) (hopens : d.Opens context T slot) :
    ∃ sessions, d.sessions (.onDay T.prisonCode prisonerId slot.date) = .ok sessions ∧
      d.offered T slot.date ∈ sessions := by
  obtain ⟨earliest, latest, hwindow, hearliest, hlatest⟩ := hopens.window
  have hcontext : d.queryContext (.onDay T.prisonCode prisonerId slot.date) = .ok (some context) :=
    queryContext_onDay.mpr ⟨context, rfl, hknown, hopens.heldThere.symm⟩
  have hsessions := (sessions_eq_ok h hgrouped).mpr
    ⟨Int.le_refl _, some context, earliest, latest, hcontext, hwindow, rfl⟩
  have hkey : T.reference = slot.template := h.keyed.templates _ T hstored
  refine ⟨_, hsessions, (mem_sessions h hgrouped hsessions hcontext hwindow).mpr
    ⟨T, slot.date, ?_, rfl, offers_eq_true.mpr ⟨hopens.active, hopens.eligible⟩, hopens.fires,
      Int.le_refl _, Int.le_refl _, hearliest, hlatest, rfl⟩⟩
  rw [hkey]
  exact hstored

end

/-! ## What comes of a reservation -/

/-- A reservation comes to what holding its slot under a new reference comes to. -/
theorem reserve_eq_of_holdSlot {r : ReserveRequest} (hnew : r.bookingReference = none)
    (hcounts : checkCounts r.visitors r.support = .ok ())
    (hsupplied : d.store.supplies 2 d.references = true) :
    ∃ bookingReference, d.store.containsReference bookingReference = false ∧
      (d.reserve r).1.map (fun _ => ()) =
        (d.holdSlot r.prisonerId r.slot bookingReference).map (fun _ => ()) := by
  obtain ⟨bookingReference, source, hbooking, hsupplied⟩ := Store.supplies_succ.mp hsupplied
  obtain ⟨reference, source', hreference, -⟩ := Store.supplies_succ.mp hsupplied
  refine ⟨bookingReference, Store.unused_of_freshReference ⟨_, _, hbooking⟩, ?_⟩
  have hfor : (d.bookingFor r).run.run d.references = (.ok bookingReference, source) := by
    rw [bookingFor, hnew]
    exact hbooking
  rw [reserve, answer_transact, planReserve, run_bind, run_lift, hcounts]
  dsimp only
  rw [run_bind, hfor]
  dsimp only
  rw [run_bind, run_lift]
  cases d.holdSlot r.prisonerId r.slot bookingReference with
  | error refusal => rfl
  | ok o =>
    dsimp only
    rw [run_bind, hreference]
    rfl

/-- A reservation that is granted has held a slot in an open session. -/
theorem opens_of_reserve {r : ReserveRequest} {a : Application} (hgranted : (d.reserve r).1 = .ok a)
    {T : SessionTemplate} (hstored : d.store.template? r.slot.template = some T) :
    ∃ context, d.prisoners[r.prisonerId]? = some context ∧ d.Opens context T r.slot := by
  rw [reserve, answer_transact] at hgranted
  generalize hrun : (d.planReserve r).run.run d.references = result at hgranted
  obtain ⟨_ | t, source⟩ := result
  · cases hgranted
  · have hyields : (d.planReserve r).Yields t := ⟨_, _, hrun⟩
    unfold planReserve at hyields
    obtain ⟨_, -, hyields⟩ := hyields.bind
    obtain ⟨_, -, hyields⟩ := hyields.bind
    obtain ⟨o, hheld, -⟩ := hyields.bind
    obtain ⟨context, T', hknown, hadmits, -⟩ := holdSlot_eq_ok.mp hheld.lift
    cases hstored.symm.trans hadmits.template
    exact ⟨context, hknown, hadmits.toOpens⟩

/-! ## The list and the reservation -/

/-- A query of the day lists the session for the prisoner. -/
def Lists (d : Desk) (prisonCode prisonerId : String) (slot : Slot) (s : OfferedSession) : Prop :=
  ∃ sessions, d.sessions (.onDay prisonCode prisonerId slot.date) = .ok sessions ∧ s ∈ sessions ∧
    s.isOf slot.template slot.date = true

/-- In a session that is listed the seats decide: those that the list counts as taken, and those
that drafts of changes hold. -/
theorem reserve_of_listed (h : d.store.Sound) (hgrouped : d.store.rows.Grouped)
    (hdated : d.store.rows.Dated) {r : ReserveRequest} {T : SessionTemplate} {s : OfferedSession}
    (hnew : r.bookingReference = none) (hstored : d.store.template? r.slot.template = some T)
    (hlisted : d.Lists T.prisonCode r.prisonerId r.slot s)
    (hcounts : checkCounts r.visitors r.support = .ok ())
    (hsupplied : d.store.supplies 2 d.references = true) :
    (d.reserve r).1.map (fun _ => ()) =
      if s.load.taken r.slot.restriction + d.store.changing s.occurrence r.slot.restriction <
          (s.occurrence.capacity.seats r.slot.restriction).toNat then .ok ()
      else .error (.capacityExceeded r.slot.restriction
        (s.occurrence.capacity.seats r.slot.restriction)) := by
  obtain ⟨sessions, hsessions, hs, hof⟩ := hlisted
  obtain ⟨rfl, context, hknown, hopens⟩ := opens_of_listed h hgrouped hstored hsessions hs hof
  obtain ⟨bookingReference, hunused, hreserve⟩ := reserve_eq_of_holdSlot hnew hcounts hsupplied
  rw [hreserve, hopens.holdSlot_eq hknown, takenBeside_eq h hdated hunused,
    apply_ite (Except.map fun _ => ())]
  rfl

/-- What the query of the day tells of a reservation for a new booking. In a session that is listed
the seats decide, if the reservation keeps the limits and there are references for it. -/
structure Foretold (d : Desk) (T : SessionTemplate) (r : ReserveRequest) : Prop where
  unlisted : (∀ s, ¬d.Lists T.prisonCode r.prisonerId r.slot s) →
    ∃ refusal, (d.reserve r).1 = .error refusal
  once : ∀ sessions, d.sessions (.onDay T.prisonCode r.prisonerId r.slot.date) = .ok sessions →
    sessions.countP (fun s => s.isOf r.slot.template r.slot.date) ≤ 1
  free : ∀ s, d.Lists T.prisonCode r.prisonerId r.slot s →
    checkCounts r.visitors r.support = .ok () → d.store.supplies 2 d.references = true →
    s.load.taken r.slot.restriction + d.store.changing s.occurrence r.slot.restriction <
      (s.occurrence.capacity.seats r.slot.restriction).toNat →
    ∃ a, (d.reserve r).1 = .ok a
  full : ∀ s, d.Lists T.prisonCode r.prisonerId r.slot s →
    checkCounts r.visitors r.support = .ok () → d.store.supplies 2 d.references = true →
    (s.occurrence.capacity.seats r.slot.restriction).toNat ≤
      s.load.taken r.slot.restriction + d.store.changing s.occurrence r.slot.restriction →
    (d.reserve r).1 = .error (.capacityExceeded r.slot.restriction
      (s.occurrence.capacity.seats r.slot.restriction))

theorem foretold (h : d.store.Sound) (hgrouped : d.store.rows.Grouped)
    (hdated : d.store.rows.Dated) {r : ReserveRequest} {T : SessionTemplate}
    (hnew : r.bookingReference = none) (hstored : d.store.template? r.slot.template = some T) :
    d.Foretold T r where
  unlisted := by
    intro hnone
    cases hreserve : (d.reserve r).1 with
    | error refusal => exact ⟨refusal, rfl⟩
    | ok a =>
      obtain ⟨context, hknown, hopens⟩ := opens_of_reserve hreserve hstored
      obtain ⟨sessions, hsessions, hs⟩ := listed_of_opens h hgrouped hstored hknown hopens
      have hkey : T.reference = r.slot.template := h.keyed.templates _ T hstored
      refine absurd ⟨sessions, hsessions, hs, ?_⟩ (hnone (d.offered T r.slot.date))
      simp [OfferedSession.isOf, offered, SessionTemplate.occurrence, hkey]
  once := fun sessions hsessions => countP_isOf_le_one h hgrouped hsessions _ _
  free := by
    intro s hlisted hcounts hsupplied hseat
    have hreserve := reserve_of_listed h hgrouped hdated hnew hstored hlisted hcounts hsupplied
    rw [if_pos hseat] at hreserve
    cases hanswer : (d.reserve r).1 with
    | error refusal =>
      rw [hanswer] at hreserve
      cases hreserve
    | ok a => exact ⟨a, rfl⟩
  full := by
    intro s hlisted hcounts hsupplied hfull
    have hreserve := reserve_of_listed h hgrouped hdated hnew hstored hlisted hcounts hsupplied
    rw [if_neg (Nat.not_lt.mpr hfull)] at hreserve
    cases hanswer : (d.reserve r).1 with
    | error refusal =>
      rw [hanswer] at hreserve
      cases hreserve
      rfl
    | ok a =>
      rw [hanswer] at hreserve
      cases hreserve

/-- Wherever a run from an empty journal stands, the sessions that are listed for a prisoner on a
day tell what comes of a reservation for a new booking. -/
theorem foretold_throughout (policy : BookingPolicy) (now : Moment)
    (prisoners : Std.ExtTreeMap String PrisonerContext) (references : ReferenceSource)
    (actions : List Action)
    (hrange : (openOn #[] policy now prisoners references).Throughout InRange actions) :
    (openOn #[] policy now prisoners references).Throughout (fun d =>
      ∀ (r : ReserveRequest) (T : SessionTemplate), r.bookingReference = none →
        d.store.template? r.slot.template = some T → d.Foretold T r) actions := by
  have hgrouped := kept_throughout preserved_grouped hrange False.elim
  have hdated := kept_throughout preserved_dated hrange False.elim
  exact (hgrouped.and hdated).imp fun d hkept r T hnew hstored =>
    foretold hkept.1.linked.sound hkept.1.live hkept.2.live hnew hstored

/-- In the small run the Monday session is listed with one seat taken, so another booking finds one
there. -/
theorem foretold_throughout_sample :
    Sample.desk.Throughout InRange Sample.actions ∧ ∃ s,
      (Sample.desk.run Sample.actions).Lists "HEI" "A0001AA" Sample.reservation.slot s ∧
      s.load.taken .openVisit = 1 ∧
      ∃ a, ((Sample.desk.run Sample.actions).reserve Sample.reservation).1 = .ok a := by
  have hstored : (Sample.desk.run Sample.actions).store.template? "a" =
      some (.ofDraft "a" Sample.mondays true) := by decide +kernel
  have hforetold := (foretold_throughout Sample.policy _ _ Sample.letters Sample.actions
    Sample.inRange_actions).last Sample.reservation _ rfl hstored
  have hlisted : (Sample.desk.run Sample.actions).Lists "HEI" "A0001AA" Sample.reservation.slot
      ((Sample.desk.run Sample.actions).offered (.ofDraft "a" Sample.mondays true) Sample.monday) :=
    ⟨_, by decide +kernel, List.mem_singleton.mpr rfl, by decide +kernel⟩
  exact ⟨Sample.inRange_actions, _, hlisted, by decide +kernel,
    hforetold.free _ hlisted (by decide +kernel) (by decide +kernel) (by decide +kernel)⟩

end Desk

end PrisonVisits
