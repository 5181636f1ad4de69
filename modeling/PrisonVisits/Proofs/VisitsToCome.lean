import PrisonVisits.Proofs.Runs
import PrisonVisits.Proofs.Seats
import PrisonVisits.Proofs.TimeOrder

/-! # Visits to come have their session

A slot is held in a session that its template runs, and from then on an edit of the template is
refused if a visit to come would lose the session. Such visits are looked for with the clock of the
desk, so a visit that has begun may well be left behind: while the clock goes forward nobody misses
it, and a clock that went back would bring it up again. -/

namespace PrisonVisits

open Rows Table

/-- The template runs a session on the visit's date, in the visit's room and around its time. -/
structure SessionTemplate.Hosts (T : SessionTemplate) (v : Visit) : Prop where
  active : T.active = true
  fires : T.schedule.firesOn v.date = true
  room : v.visitRoom = T.visitRoom
  window : (T.occurrence v.date).window.contains v.window = true

theorem SessionTemplate.hosts_of_fits {T : SessionTemplate} {v : Visit} (hactive : T.active = true)
    (h : T.fits v = true) : T.Hosts v := by
  simp only [fits, Bool.and_eq_true, beq_iff_eq] at h
  exact ⟨hactive, h.1.1, h.1.2, h.2⟩

/-- Only where the visit is and when counts. -/
theorem SessionTemplate.Hosts.sits {T : SessionTemplate} {v w : Visit} (h : T.Hosts w)
    (hsits : v.SitsAs w) : T.Hosts v := by
  have hdate : v.date = w.date := congrArg (·.start.date) hsits.window
  refine ⟨h.active, ?_, ?_, ?_⟩
  · rw [hdate]
    exact h.fires
  · rw [hsits.room]
    exact h.room
  · rw [hdate, hsits.window]
    exact h.window

/-- The visit is not cancelled and has not begun. -/
structure Visit.ToCome (v : Visit) (now : Moment) : Prop where
  live : v.isCancelled = false
  ahead : now ≤ v.window.start

theorem Visit.ToCome.earlier {v : Visit} {now later : Moment} (h : v.ToCome later)
    (hclock : now ≤ later) : v.ToCome now :=
  ⟨h.live, hclock.trans h.ahead⟩

namespace Rows

/-- The visit's template is stored and hosts it. -/
def Hosted (t : Rows) (v : Visit) : Prop :=
  ∃ T, t.templates[v.sessionTemplateReference]? = some T ∧ T.Hosts v

/-- Every visit to come is hosted. -/
def Expected (around : Surroundings) (t : Rows) : Prop :=
  ∀ v, t.HasVisit v → v.ToCome around.now → t.Hosted v

variable {around : Surroundings} {t t' : Rows}

theorem Hosted.congr {v w : Visit} (h : t.Hosted w) (htemplates : t'.templates = t.templates)
    (hsits : v.SitsAs w) : t'.Hosted v := by
  obtain ⟨T, hT, hhosts⟩ := h
  refine ⟨T, ?_, hhosts.sits hsits⟩
  rw [htemplates, hsits.template]
  exact hT

/-- The first tables of a snapshot hold all visits and templates, or no visits. -/
theorem Expected.first (h : t.Expected around) (n : Nat) : (t.first n).Expected around := by
  intro v hv htoCome
  by_cases hn : 4 ≤ n
  · have htemplates : (t.first n).templates = t.templates := if_pos (by omega)
    exact (h v hv.of_first htoCome).congr htemplates (.refl v)
  · have hnone : (t.first n).visits = ∅ := if_neg hn
    simp [HasVisit, hnone] at hv

/-- A template may be saved if it hosts the visits to come that name it. -/
theorem Expected.templateSaved (h : t.Expected around) {T : SessionTemplate}
    (hT : ∀ v, t.HasVisit v → v.ToCome around.now → v.sessionTemplateReference = T.reference →
      T.Hosts v) : (t.apply (.templateSaved T)).Expected around := by
  intro v hv htoCome
  simp only [Hosted, apply, getElem?_insert]
  by_cases hkey : T.reference = v.sessionTemplateReference
  · rw [if_pos hkey]
    exact ⟨T, rfl, hT v hv htoCome hkey.symm⟩
  · rw [if_neg hkey]
    exact h v hv htoCome

theorem Expected.templateDeleted (h : t.Expected around) {reference : Reference}
    (hunused : ∀ v, t.HasVisit v → v.sessionTemplateReference ≠ reference) :
    (t.apply (.templateDeleted reference)).Expected around := by
  intro v hv htoCome
  simp only [Hosted, apply, getElem?_erase]
  rw [if_neg (hunused v hv).symm]
  exact h v hv htoCome

end Rows

namespace Desk

variable {d : Desk}

/-! ## One action -/

theorem mem_liveVisits (h : d.store.Sound) {reference : Reference} {v : Visit} :
    v ∈ d.store.liveVisits reference d.now ↔
      (d.store.rows.HasVisit v ∧ v.sessionTemplateReference = reference) ∧ v.ToCome d.now := by
  simp only [Store.liveVisits, List.mem_filter, h.mem_visitsForTemplate, Bool.and_eq_true,
    Bool.not_eq_true', decide_eq_true_eq]
  exact and_congr_right fun _ => ⟨fun h => ⟨h.1, h.2⟩, fun h => ⟨h.live, h.ahead⟩⟩

/-- A visit lies in the slot that was held for it. -/
theorem Takes.hosts {a : Action} {w : Visit} {T : SessionTemplate} {context : PrisonerContext}
    {slot : Slot} (h : d.Takes a w T context slot) : T.Hosts w := by
  have hdate : w.date = slot.date := congrArg (·.start.date) h.window
  refine ⟨h.admits.active, ?_, h.room, ?_⟩
  · rw [hdate]
    exact h.admits.fires
  · rw [hdate, h.window]
    exact TimeWindow.contains_self _

theorem expected_of_reseats (h : d.store.Sound) (hexpected : d.store.rows.Expected d.around)
    {a : Action} {c : Commit} (hc : d.Reseats a c) :
    (d.store.rows.applyCommit c).Expected d.around := by
  have hstands : ∀ v, d.store.rows.Stands v → v.ToCome d.now →
      (d.store.rows.applyCommit c).templates = d.store.rows.templates →
      (d.store.rows.applyCommit c).Hosted v := by
    rintro v ⟨w, hw, hlive, hsits⟩ htoCome htemplates
    refine (hexpected w hw ⟨hlive htoCome.live, ?_⟩).congr htemplates hsits
    rw [← hsits.window]
    exact htoCome.ahead
  intro v hv htoCome
  cases hc with
  | stays templates others => exact hstands v (others v hv) htoCome templates
  | @takes templates w T context slot takes others =>
    rcases others v hv with rfl | hstood
    · have hkey : T.reference = slot.template := h.keyed.templates _ T takes.admits.template
      refine ⟨T, ?_, takes.hosts⟩
      rw [templates, takes.template, hkey]
      exact takes.admits.template
    · exact hstands v hstood htoCome templates

/-- The four edits of templates leave every visit to come hosted, each for its own reason: nobody
names a new template, an update was compared with the visits, one that is switched off has none, and
one that is deleted has not even visits in the past. -/
theorem expected_of_writes (h : d.store.Linked) (hexpected : d.store.rows.Expected d.around)
    {a : Action} {c : Commit} (hw : d.Writes a c) :
    (d.store.rows.applyCommit c).Expected d.around := by
  -- what a visit to come is hosted by, when the template under its reference is known
  have hhosted : ∀ {reference T v}, d.store.template? reference = some T →
      d.store.rows.HasVisit v → v.ToCome d.around.now → v.sessionTemplateReference = T.reference →
      v.sessionTemplateReference = reference ∧ T.Hosts v := by
    intro reference T v hT hv htoCome hsame
    have hkey : T.reference = reference := h.sound.keyed.templates reference T hT
    obtain ⟨S, hS, hhosts⟩ := hexpected v hv htoCome
    rw [hsame, hkey] at hS
    cases hT.symm.trans hS
    exact ⟨hsame.trans hkey, hhosts⟩
  cases hedits : a.editsTemplates with
  | false => exact expected_of_reseats h.sound hexpected (reseats_of_writes h hw hedits)
  | true =>
    cases hw with
    | @createTemplate draft reference conflicts checked room unused compared =>
      refine hexpected.templateSaved fun v hv htoCome hsame => ?_
      obtain ⟨S, hS, -⟩ := hexpected v hv htoCome
      change v.sessionTemplateReference = reference at hsame
      rw [hsame, (h.sound.unused unused).template] at hS
      cases hS
    | updateTemplate checked stored prison fits compared =>
      refine hexpected.templateSaved fun v hv htoCome hsame => ?_
      obtain ⟨hown, hhosts⟩ := hhosted stored hv htoCome hsame
      have hlive := (mem_liveVisits h.sound).mpr ⟨⟨hv, hown⟩, htoCome⟩
      exact SessionTemplate.hosts_of_fits hhosts.active (fits v hlive)
    | @setTemplateActive reference active template stored turned idle =>
      refine hexpected.templateSaved fun v hv htoCome hsame => ?_
      obtain ⟨hown, hhosts⟩ := hhosted stored hv htoCome hsame
      cases active with
      | true => exact ⟨rfl, hhosts.fires, hhosts.room, hhosts.window⟩
      | false =>
        have hlive := (mem_liveVisits h.sound).mpr ⟨⟨hv, hown⟩, htoCome⟩
        rw [idle rfl] at hlive
        cases hlive
    | @deleteTemplate reference template stored inactive unused =>
      refine hexpected.templateDeleted fun v hv hsame => ?_
      have hmem := h.sound.mem_visitsForTemplate.mpr ⟨hv, hsame⟩
      rw [unused] at hmem
      cases hmem
    | createGroup | updateGroup | deleteGroup | reserve | change | amend | book | cancel | discard
    | expire => cases hedits

/-! ## Runs -/

/-- The action does not turn the clock back. -/
def ClockForward (d : Desk) : Action → Prop
  | .setClock now => d.now ≤ now
  | _ => True

theorem preserved_expected : Preserved False ClockForward Expected
    (fun around commits => (Store.ofCommits commits).rows.Expected around) := by
  refine preserved_of_rows (fun _ => trivial)
    (fun _ v hv => absurd hv (not_hasVisit_empty v))
    (fun h hexpected _ hw => expected_of_writes h hexpected hw)
    (fun _ hexpected _ => hexpected.first _) ?_
  intro d a t hturns hforward hexpected v hv htoCome
  cases a with
  | setClock now => exact hexpected v hv (htoCome.earlier hforward)
  | setPrisoner context => exact hexpected v hv htoCome
  | _ => cases hturns

end Desk

/-- Every visit that is not cancelled and has not begun has a stored template that hosts it. -/
def Desk.StrandsNobody (d : Desk) : Prop :=
  ∀ (id : UInt64) (v : Visit), d.store.visit? id = some v → v.isCancelled = false →
    d.now ≤ v.window.start →
    ∃ T, d.store.template? v.sessionTemplateReference = some T ∧ T.Hosts v

/-- Along every run from an empty journal in which the clock does not go back, no visit to come is
stranded. -/
theorem strandsNobody_throughout (policy : BookingPolicy) (now : Moment)
    (prisoners : Std.ExtTreeMap String PrisonerContext) (references : ReferenceSource)
    (actions : List Action)
    (hrange : (Desk.openOn #[] policy now prisoners references).Throughout Desk.InRange actions)
    (hclock : (Desk.openOn #[] policy now prisoners references).Along Desk.ClockForward actions) :
    (Desk.openOn #[] policy now prisoners references).Throughout Desk.StrandsNobody actions := by
  have hallowed : (Desk.openOn #[] policy now prisoners references).Along
      (fun d a => d.Accepts a → d.ClockForward a) actions :=
    hclock.imp fun d a hforward (_ : d.Accepts a) => hforward
  have hkept := (Desk.kept_openOn Desk.preserved_expected policy now prisoners references).run
    Desk.preserved_expected hrange False.elim hallowed
  refine hkept.imp fun d h id v hv hlive hahead => ?_
  have hrow : d.store.rows.HasVisit v := by
    rw [HasVisit, h.linked.sound.keyed.visits id v hv]
    exact hv
  exact h.live v hrow ⟨hlive, hahead⟩

namespace Sample

/-- The small run, and then the weekend passes. -/
def weekend : List Action := actions ++ [.setClock ⟨monday, time 9 (by decide)⟩]

theorem along_weekend : desk.Along (Desk.AppendsAtMost 1000) weekend := by
  refine ⟨⟨nofun, ?_, ?_⟩, ⟨nofun, ?_, ?_⟩, ⟨nofun, ?_, ?_⟩, ⟨nofun, ?_, ?_⟩, trivial⟩
  all_goals decide +kernel

end Sample

/-- On Monday morning visit 1 is still to come, and template a hosts it. -/
theorem strandsNobody_throughout_sample :
    Sample.desk.Throughout Desk.InRange Sample.weekend ∧
      Sample.desk.Along Desk.ClockForward Sample.weekend ∧
      ∃ v T, (Sample.desk.run Sample.weekend).store.visit? 1 = some v ∧
        (Sample.desk.run Sample.weekend).store.template? v.sessionTemplateReference = some T ∧
        T.Hosts v := by
  have hrange := Desk.throughout_inRange (m := 0) (by decide) (by decide +kernel)
    Sample.along_weekend (by decide)
  have hclock : Sample.desk.Along Desk.ClockForward Sample.weekend := by
    refine ⟨trivial, trivial, trivial, ?_, trivial⟩
    change (Sample.desk.run Sample.actions).now ≤ _
    decide +kernel
  refine ⟨hrange, hclock, ?_⟩
  have hhosted := (strandsNobody_throughout Sample.policy _ _ Sample.letters Sample.weekend hrange
    hclock).last
  have hstored : ((Sample.desk.run Sample.weekend).store.visit? 1).map (fun v =>
      (v.isCancelled, decide ((Sample.desk.run Sample.weekend).now ≤ v.window.start))) =
      some (false, true) := by
    decide +kernel
  obtain ⟨v, hv, hfacts⟩ := Option.map_eq_some_iff.mp hstored
  obtain ⟨hlive, hahead⟩ := Prod.mk.inj hfacts
  obtain ⟨T, hT, hhosts⟩ := hhosted 1 v hv hlive (of_decide_eq_true hahead)
  exact ⟨v, T, hv, hT, hhosts⟩

end PrisonVisits
