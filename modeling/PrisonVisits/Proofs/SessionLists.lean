import Mathlib.Data.List.Nodup
import PrisonVisits.Desk.Sessions
import PrisonVisits.Proofs.GroupLinks
import PrisonVisits.Proofs.ScheduleDates

/-! # Which sessions are listed

The groups of stored templates are always found, so a query fails only for what it asks itself. It
lists the sessions of every template of the prison that is offered, on the dates of the query that
the booking window leaves, each once. -/

namespace PrisonVisits

/-- The session is the one of the template on the date. -/
def OfferedSession.isOf (s : OfferedSession) (template : Reference) (date : Date) : Bool :=
  s.occurrence.templateReference == template && s.occurrence.date == date

namespace Store

variable {s : Store}

theorem Sound.mem_templatesForPrison (h : s.Sound) {prisonCode : String} {t : SessionTemplate} :
    t ∈ s.templatesForPrison prisonCode ↔
      s.template? t.reference = some t ∧ t.prisonCode = prisonCode := by
  simp only [templatesForPrison, List.mem_filterMap, h.indexed.byPrison.mem_iff]
  constructor
  · rintro ⟨reference, ⟨other, hother, hprison⟩, hstored⟩
    cases hother.symm.trans hstored
    rw [h.keyed.templates reference t hstored]
    exact ⟨hstored, hprison⟩
  · rintro ⟨hstored, hprison⟩
    exact ⟨t.reference, ⟨t, hstored, hprison⟩, hstored⟩

theorem Sound.nodup_templatesForPrison (h : s.Sound) (prisonCode : String) :
    (s.templatesForPrison prisonCode).Nodup := by
  refine (h.indexed.byPrison.nodup prisonCode).filterMap fun reference other t ht ht' => ?_
  exact (h.keyed.templates reference t ht).symm.trans (h.keyed.templates other t ht')

end Store

namespace Desk

variable {d : Desk}

/-! ## One template -/

theorem offers_eq_true {context : PrisonerContext} {t : SessionTemplate} :
    d.offers (some context) t = .ok true ↔ t.active = true ∧
      ∃ eligibility, d.store.eligibilityOf t = .ok eligibility ∧
        eligibility.refusing context = [] := by
  unfold offers
  cases t.active with
  | false => simp
  | true =>
    change (d.store.eligibilityOf t >>= fun eligibility => pure (eligibility.allows context)) =
      .ok true ↔ _
    simp only [bind_eq_ok, pure_eq_ok, Eligibility.allows, List.isEmpty_iff, true_and]

theorem active_of_offers {context : Option PrisonerContext} {t : SessionTemplate}
    (h : d.offers context t = .ok true) : t.active = true := by
  unfold offers at h
  split at h
  · cases h
  · next hactive => simpa using hactive

/-- Whether a template is offered is known if its groups are found. -/
theorem exists_offers_eq_ok {t : SessionTemplate}
    (h : d.store.rows.Resolves t.toTemplateDraft) (context : Option PrisonerContext) :
    ∃ offered, d.offers context t = .ok offered := by
  obtain ⟨eligibility, heligibility⟩ := Store.exists_eligibilityOf_eq_ok.mpr h
  unfold offers
  split
  · exact ⟨_, rfl⟩
  · cases context with
    | none => exact ⟨_, rfl⟩
    | some context => exact ⟨_, bind_eq_ok.mpr ⟨eligibility, heligibility, rfl⟩⟩

/-- The sessions of a template between two dates, none if it is not offered. -/
def listed (d : Desk) (context : Option PrisonerContext) (first last : Date)
    (t : SessionTemplate) : List OfferedSession :=
  match d.offers context t with
  | .ok true => (t.dates first last).toList.map (d.offered t)
  | _ => []

theorem templateSessions_eq {t : SessionTemplate} (h : d.store.rows.Resolves t.toTemplateDraft)
    (context : Option PrisonerContext) (first last : Date) :
    d.templateSessions context first last t = .ok (d.listed context first last t) := by
  obtain ⟨offered, hoffers⟩ := exists_offers_eq_ok h context
  unfold templateSessions listed
  rw [hoffers]
  cases offered <;> rfl

theorem mem_listed {context : Option PrisonerContext} {first last : Date} {t : SessionTemplate}
    {s : OfferedSession} : s ∈ d.listed context first last t ↔
      d.offers context t = .ok true ∧ ∃ date, t.schedule.firesOn date = true ∧ first ≤ date ∧
        date ≤ last ∧ s = d.offered t date := by
  unfold listed
  split
  · next hoffers =>
    have hdates : t.dates first last = t.schedule.datesBetween first last :=
      if_pos (active_of_offers hoffers)
    simp only [hdates, List.mem_map, Schedule.mem_datesBetween, hoffers, true_and, and_assoc,
      eq_comm]
  · next hrefused =>
    refine ⟨fun h => absurd h List.not_mem_nil, fun ⟨hoffers, _⟩ => ?_⟩
    exact absurd hoffers hrefused

theorem nodup_listed (context : Option PrisonerContext) (first last : Date) (t : SessionTemplate) :
    (d.listed context first last t).Nodup := by
  unfold listed
  split
  · next hoffers =>
    have hdates : t.dates first last = t.schedule.datesBetween first last :=
      if_pos (active_of_offers hoffers)
    rw [hdates]
    exact (t.schedule.nodup_datesBetween first last).map fun date other hsame =>
      congrArg (·.occurrence.date) hsame
  · exact List.nodup_nil

/-! ## A query -/

/-- A query that is not refused lists the sessions of all templates of the prison. -/
theorem sessions_eq_ok (h : d.store.Sound) (hgrouped : d.store.rows.Grouped) {q : SessionQuery}
    {sessions : List OfferedSession} : d.sessions q = .ok sessions ↔
      q.first ≤ q.last ∧ ∃ context earliest latest, d.queryContext q = .ok context ∧
        d.bookingWindow = .ok (earliest, latest) ∧
        sessions = ((d.store.templatesForPrison q.prisonCode).flatMap
          (d.listed context (max q.first earliest) (min q.last latest))).mergeSort
            OfferedSession.precedes := by
  have hlisted : ∀ context first last, (d.store.templatesForPrison q.prisonCode).mapM
      (d.templateSessions context first last) =
        .ok ((d.store.templatesForPrison q.prisonCode).map (d.listed context first last)) :=
    fun context first last => mapM_of_forall fun t ht =>
      templateSessions_eq (hgrouped t.reference t (h.mem_templatesForPrison.mp ht).1) context
        first last
  have hnone : ∀ context first last, last < first →
      (d.store.templatesForPrison q.prisonCode).flatMap (d.listed context first last) = [] := by
    intro context first last hlt
    refine List.flatMap_eq_nil_iff.mpr fun t _ => List.eq_nil_iff_forall_not_mem.mpr fun s hs => ?_
    obtain ⟨-, date, -, hfirst, hlast, -⟩ := mem_listed.mp hs
    exact absurd (hfirst.trans hlast) hlt.not_ge
  simp only [Desk.sessions, bind_eq_ok, require_eq_ok, decide_eq_true_eq]
  constructor
  · rintro ⟨_, hle, context, hcontext, ⟨earliest, latest⟩, hwindow, hsessions⟩
    refine ⟨hle, context, earliest, latest, hcontext, hwindow, ?_⟩
    dsimp only at hsessions
    split at hsessions
    · next hlt =>
      rw [hnone context _ _ hlt, List.mergeSort_nil]
      exact (pure_eq_ok.mp hsessions).symm
    · rw [hlisted, ok_bind, pure_eq_ok] at hsessions
      exact hsessions.symm
  · rintro ⟨hle, context, earliest, latest, hcontext, hwindow, rfl⟩
    refine ⟨(), hle, context, hcontext, (earliest, latest), hwindow, ?_⟩
    dsimp only
    split
    · next hlt =>
      rw [hnone context _ _ hlt, List.mergeSort_nil]
      rfl
    · rw [hlisted, ok_bind]
      rfl

/-- The sessions that a query lists. -/
theorem mem_sessions (h : d.store.Sound) (hgrouped : d.store.rows.Grouped) {q : SessionQuery}
    {context : Option PrisonerContext} {earliest latest : Date} {sessions : List OfferedSession}
    (hsessions : d.sessions q = .ok sessions) (hcontext : d.queryContext q = .ok context)
    (hwindow : d.bookingWindow = .ok (earliest, latest)) {s : OfferedSession} :
    s ∈ sessions ↔ ∃ t date, d.store.template? t.reference = some t ∧ t.prisonCode = q.prisonCode ∧
      d.offers context t = .ok true ∧ t.schedule.firesOn date = true ∧ q.first ≤ date ∧
      date ≤ q.last ∧ earliest ≤ date ∧ date ≤ latest ∧ s = d.offered t date := by
  obtain ⟨-, _, _, _, hcontext', hwindow', rfl⟩ := (sessions_eq_ok h hgrouped).mp hsessions
  cases hcontext.symm.trans hcontext'
  cases hwindow.symm.trans hwindow'
  simp only [List.mem_mergeSort, List.mem_flatMap, h.mem_templatesForPrison, mem_listed,
    max_le_iff, le_min_iff]
  constructor
  · rintro ⟨t, ⟨hstored, hprison⟩, hoffers, date, hfires, ⟨hfirst, hearliest⟩, ⟨hlast, hlatest⟩, hs⟩
    exact ⟨t, date, hstored, hprison, hoffers, hfires, hfirst, hlast, hearliest, hlatest, hs⟩
  · rintro ⟨t, date, hstored, hprison, hoffers, hfires, hfirst, hlast, hearliest, hlatest, hs⟩
    exact ⟨t, ⟨hstored, hprison⟩, hoffers, date, hfires, ⟨hfirst, hearliest⟩, ⟨hlast, hlatest⟩, hs⟩

theorem nodup_sessions (h : d.store.Sound) (hgrouped : d.store.rows.Grouped) {q : SessionQuery}
    {sessions : List OfferedSession} (hsessions : d.sessions q = .ok sessions) :
    sessions.Nodup := by
  obtain ⟨-, context, earliest, latest, -, -, rfl⟩ := (sessions_eq_ok h hgrouped).mp hsessions
  refine (List.mergeSort_perm ..).nodup_iff.mpr (List.nodup_flatMap.mpr
    ⟨fun t _ => nodup_listed .., (h.nodup_templatesForPrison _).imp_of_mem ?_⟩)
  intro t t' ht ht' hne s hs hs'
  obtain ⟨-, date, -, -, -, rfl⟩ := mem_listed.mp hs
  obtain ⟨-, date', -, -, -, hsame⟩ := mem_listed.mp hs'
  have hreference : t.reference = t'.reference := congrArg (·.occurrence.templateReference) hsame
  have hstored := (h.mem_templatesForPrison.mp ht).1
  rw [hreference, (h.mem_templatesForPrison.mp ht').1] at hstored
  exact hne (Option.some.inj hstored).symm

/-- A template has one session on a date at most. -/
theorem countP_isOf_le_one (h : d.store.Sound) (hgrouped : d.store.rows.Grouped) {q : SessionQuery}
    {sessions : List OfferedSession} (hsessions : d.sessions q = .ok sessions)
    (template : Reference) (date : Date) :
    sessions.countP (fun s => s.isOf template date) ≤ 1 := by
  refine Table.countP_le_one (nodup_sessions h hgrouped hsessions) fun a ha b hb hat hbt => ?_
  obtain ⟨-, _, _, _, hcontext, hwindow, -⟩ := (sessions_eq_ok h hgrouped).mp hsessions
  obtain ⟨t, first, ht, -, -, -, -, -, -, -, rfl⟩ :=
    (mem_sessions h hgrouped hsessions hcontext hwindow).mp ha
  obtain ⟨t', second, ht', -, -, -, -, -, -, -, rfl⟩ :=
    (mem_sessions h hgrouped hsessions hcontext hwindow).mp hb
  simp only [OfferedSession.isOf, offered, SessionTemplate.occurrence, Bool.and_eq_true,
    beq_iff_eq] at hat hbt
  rw [hat.1, ← hbt.1, ht'] at ht
  rw [Option.some.inj ht, hat.2, hbt.2]

end Desk

end PrisonVisits
