import PrisonVisits.Proofs.ApplicationIndex
import PrisonVisits.Proofs.SessionLists

/-! # Lookups find what is stored

The plain tables say what a sequence of records leaves stored. A store that went through the same
records has indexes besides, and what it looks up in them is what a search of the tables gives:
nothing stale and nothing missing, whichever keys rows have moved between and whatever was deleted.
The index from applications to visits keeps one visit for each application, so it finds every visit
where no two have ever been of the same one. -/

namespace PrisonVisits

open Std Table Rows

namespace Rows

/-- The list has the stored visits with the property, each once and in the order of their ids. -/
structure Lists (t : Rows) (p : Visit → Prop) (visits : List Visit) : Prop where
  mem_iff : ∀ v, v ∈ visits ↔ v ∈ t.visits.values ∧ p v
  ascending : visits.Pairwise fun v w => v.id < w.id

/-- No two visits are of the same application. -/
def OneVisitEach (t : Rows) : Prop := (t.visits.values.map Visit.applicationReference).Nodup

instance (t : Rows) : Decidable t.OneVisitEach :=
  inferInstanceAs (Decidable (t.visits.values.map Visit.applicationReference).Nodup)

variable {t : Rows}

theorem OneVisitEach.unique (h : t.OneVisitEach) (hkeyed : t.Keyed) {v w : Visit}
    (hv : t.HasVisit v) (hw : t.HasVisit w)
    (hsame : v.applicationReference = w.applicationReference) : v = w :=
  List.inj_on_of_nodup_map h (hkeyed.visits.mem_values.mpr hv) (hkeyed.visits.mem_values.mpr hw)
    hsame

theorem Keyed.lists_filter (h : t.Keyed) (p : Visit → Prop) [DecidablePred p] :
    t.Lists p (t.visits.values.filter p) where
  mem_iff v := by rw [List.mem_filter, decide_eq_true_eq]
  ascending := (h.visits.ascending_values.sublist List.filter_sublist).imp Store.lt_of_compare

end Rows

namespace Store

variable {s : Store}

/-! ## The visit of an application -/

theorem FoundAll.visitSaved (h : s.FoundAll) (hkeyed : s.rows.Keyed)
    (hbefore : s.rows.OneVisitEach) {v : Visit}
    (hafter : (s.rows.apply (.visitSaved v)).OneVisitEach) :
    (s.apply (.visitSaved v)).FoundAll := by
  have hother : ∀ w, w.id ≠ v.id → s.rows.HasVisit w →
      v.applicationReference ≠ w.applicationReference := by
    intro w hne hw hsame
    have hboth := hafter.unique (hkeyed.apply _) (hasVisit_visitSaved.mpr (.inl rfl))
      (hasVisit_visitSaved.mpr (.inr ⟨hne, hw⟩)) hsame
    exact hne (congrArg Visit.id hboth).symm
  intro w hw
  rw [rows_apply] at hw
  change (s.saveVisit v).visitByApplication[w.applicationReference]? = _
  unfold saveVisit
  cases hold : s.visits[v.id]? with
  | none =>
    simp only [indexVisit, getElem?_insert]
    rcases hasVisit_visitSaved.mp hw with rfl | ⟨hne, hw⟩
    · rw [if_pos rfl]
    · rw [if_neg (hother w hne hw), h w hw]
  | some old =>
    have hid : old.id = v.id := hkeyed.visits v.id old hold
    have hstored : s.rows.HasVisit old := by rwa [HasVisit, hid]
    simp only [reindexVisit]
    split
    · next hsame =>
      rcases hasVisit_visitSaved.mp hw with rfl | ⟨-, hw⟩
      · rw [← hsame, h old hstored, hid]
      · exact h w hw
    · next hmoved =>
      rw [getElem?_dropApplicationVisit, getElem?_insert, getElem?_insert]
      rcases hasVisit_visitSaved.mp hw with rfl | ⟨hne, hw⟩
      · rw [if_neg fun hdropped => hmoved hdropped.1, if_pos rfl]
      · -- the application that the visit leaves has no other one
        have hleft : old.applicationReference ≠ w.applicationReference := fun hsame =>
          hne (by rw [← hid, hbefore.unique hkeyed hstored hw hsame])
        rw [if_neg fun hdropped => hleft hdropped.1, if_neg (hother w hne hw), h w hw]

theorem FoundAll.visitDeleted (h : s.FoundAll) (hkeyed : s.rows.Keyed)
    (hbefore : s.rows.OneVisitEach) (id : UInt64) : (s.apply (.visitDeleted id)).FoundAll := by
  intro w hw
  rw [rows_apply] at hw
  obtain ⟨hne, hw⟩ := hasVisit_visitDeleted.mp hw
  change (s.deleteVisit id).visitByApplication[w.applicationReference]? = _
  unfold deleteVisit
  split
  · exact h w hw
  · next old hold =>
    have hid : old.id = id := hkeyed.visits id old hold
    have hleft : old.applicationReference ≠ w.applicationReference := by
      intro hsame
      have hstored : s.rows.HasVisit old := by rwa [HasVisit, hid]
      exact hne (by rw [← hid, hbefore.unique hkeyed hstored hw hsame])
    simp only [unindexVisit, getElem?_dropApplicationVisit]
    rw [if_neg fun hdropped => hleft hdropped.1, h w hw]

/-- Records of all kinds keep the index if no application has two visits before or after. -/
theorem FoundAll.apply_of_one_each (h : s.FoundAll) (hkeyed : s.rows.Keyed)
    (hbefore : s.rows.OneVisitEach) {r : Record} (hafter : (s.rows.apply r).OneVisitEach) :
    (s.apply r).FoundAll := by
  cases htouches : r.touchesVisit with
  | false =>
    obtain ⟨hvisits, hindex⟩ := visits_apply_of_not_touches (s := s) htouches
    intro w hw
    rw [hindex]
    refine h w ?_
    change s.visits[w.id]? = some w
    rw [← hvisits]
    exact hw
  | true =>
    cases r with
    | visitSaved v => exact h.visitSaved hkeyed hbefore hafter
    | visitDeleted id => exact h.visitDeleted hkeyed hbefore id
    | groupSaved | groupDeleted | templateSaved | templateDeleted | applicationSaved
    | applicationDeleted | audit => cases htouches

theorem FoundAll.applyCommit_of_one_each (h : s.FoundAll) (hsound : s.Sound)
    {records : List Record}
    (hone : ∀ n ≤ records.length, (s.rows.applyCommit (records.take n)).OneVisitEach) :
    (s.applyCommit records).FoundAll := by
  induction records generalizing s with
  | nil => exact h
  | cons r records ih =>
    have hbefore := hone 0 (Nat.zero_le _)
    have hafter := hone 1 (Nat.succ_le_succ (Nat.zero_le _))
    refine ih (h.apply_of_one_each hsound.keyed hbefore hafter) (hsound.apply r) fun n hn => ?_
    rw [rows_apply]
    exact hone (n + 1) (Nat.succ_le_succ hn)

/-! ## All lookups -/

theorem Sound.templateCount_eq (h : s.Sound) (prisonCode : String) :
    s.templateCount prisonCode = (s.templatesForPrison prisonCode).length := by
  have hfound : ∀ reference ∈ s.templatesByPrison.names prisonCode,
      (s.template? reference).isSome = true := by
    intro reference hreference
    obtain ⟨t, ht, -⟩ := (h.indexed.byPrison.mem_iff prisonCode reference).mp hreference
    exact Option.isSome_iff_exists.mpr ⟨t, ht⟩
  rw [templatesForPrison, templateCount, List.length_filterMap_eq_countP,
    List.countP_eq_length.mpr hfound]

/-- What the store looks up is what the tables hold. -/
structure Mirrors (s : Store) (t : Rows) : Prop where
  visitsForReference : ∀ reference,
    t.Lists (·.reference = reference) (s.visitsForReference reference)
  visitsInRoomDay : ∀ roomDay, t.Lists (·.roomDay = roomDay) (s.visitsInRoomDay roomDay)
  visitsForTemplate : ∀ template,
    t.Lists (·.sessionTemplateReference = template) (s.visitsForTemplate template)
  nodup_templates : ∀ prisonCode, (s.templatesForPrison prisonCode).Nodup
  mem_templates : ∀ prisonCode T, T ∈ s.templatesForPrison prisonCode ↔
    T ∈ t.templates.values ∧ T.prisonCode = prisonCode
  templateCount : ∀ prisonCode,
    s.templateCount prisonCode = (s.templatesForPrison prisonCode).length
  containsReference : ∀ reference, s.containsReference reference = true ↔
    (∃ a ∈ t.applications.values, a.reference = reference) ∨
    (∃ v ∈ t.visits.values, v.reference = reference) ∨
    (∃ T ∈ t.templates.values, T.reference = reference) ∨
    ∃ g ∈ t.groups.values, g.reference = reference

theorem Sound.mirrors (h : s.Sound) : s.Mirrors s.rows where
  visitsForReference := by
    intro reference
    rw [h.visitsForReference_eq]
    exact h.keyed.lists_filter _
  visitsInRoomDay := by
    intro roomDay
    rw [h.visitsInRoomDay_eq]
    exact h.keyed.lists_filter _
  visitsForTemplate := by
    intro template
    rw [h.visitsForTemplate_eq]
    exact h.keyed.lists_filter _
  nodup_templates := h.nodup_templatesForPrison
  mem_templates := by
    intro prisonCode T
    rw [h.mem_templatesForPrison, h.keyed.templates.mem_values]
    rfl
  templateCount := h.templateCount_eq
  containsReference := by
    intro reference
    have hvisit : (∃ v ∈ s.rows.visits.values, v.reference = reference) ↔
        ∃ v : Visit, s.visits[v.id]? = some v ∧ v.reference = reference :=
      exists_congr fun v => and_congr_left fun _ => h.mem_visits
    rw [h.containsReference_iff, h.keyed.applications.exists_mem_values, hvisit,
      h.keyed.templates.exists_mem_values, h.keyed.groups.exists_mem_values]
    rfl

/-- After any records, the store looks up what the tables hold after the same records; where no
application has had two visits at a time, also the visit of each application. -/
theorem lookups_exact (records : List Record) :
    let s := empty.applyCommit records
    let t := empty.rows.applyCommit records
    s.Mirrors t ∧
    ((∀ n ≤ records.length, (empty.rows.applyCommit (records.take n)).OneVisitEach) →
      ∀ application v, s.visitForApplication? application = some v ↔
        v ∈ t.visits.values ∧ v.applicationReference = application) := by
  intro s t
  have hs : s.Sound := sound_empty.applyCommit records
  have hrows : s.rows = t := rows_applyCommit empty records
  refine ⟨hrows ▸ hs.mirrors, fun hone application v => ?_⟩
  have hfound : s.FoundAll := foundAll_empty.applyCommit_of_one_each sound_empty hone
  rw [hfound.visitForApplication?_iff hs, ← hrows, hs.keyed.visits.mem_values]
  rfl

end Store

namespace Sample

/-- A booked visit in the main room. -/
def seat (id : UInt64) (booking application : Reference) : Visit where
  id := id
  reference := booking
  applicationReference := application
  prisonCode := "HEI"
  prisonerId := "A0001AA"
  sessionTemplateReference := "t"
  visitRoom := "main"
  window := ⟨endOfCalendar, endOfCalendar⟩
  restriction := .openVisit
  status := .booked
  outcome := none
  contact := none
  visitors := []
  support := []
  notes := []
  createdAt := endOfCalendar
  modifiedAt := endOfCalendar

/-- A visit changes its booking and its application, and another one takes the application it had.
-/
def moving : List Record :=
  [.visitSaved (seat 1 "a" "x"), .visitSaved (seat 1 "b" "y"), .visitDeleted 3,
    .visitSaved (seat 2 "b" "x")]

end Sample

theorem Store.lookups_exact_sample :
    let s := empty.applyCommit Sample.moving
    s.visitForApplication? "x" = some (Sample.seat 2 "b" "x") ∧
    s.visitForApplication? "y" = some (Sample.seat 1 "b" "y") ∧
    s.visitsForReference "b" = [Sample.seat 1 "b" "y", Sample.seat 2 "b" "x"] := by
  intro s
  have hfinds := (lookups_exact Sample.moving).2 (by decide +kernel)
  exact ⟨(hfinds "x" _).mpr (by decide +kernel), (hfinds "y" _).mpr (by decide +kernel),
    by decide +kernel⟩

end PrisonVisits
