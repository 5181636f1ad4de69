import PrisonVisits.Proofs.Confirmations
import PrisonVisits.Proofs.VisitsToCome

/-! # Sessions that are gone when they are booked

A booking asks only whether the template is active and admits the prisoner. That the template still
has the visit's session rests on its updates, and those spare the visits to come and no others. So
every visit that is not cancelled fits its template unless an update came after the visit had begun,
and only such an update can make a booking confirm a session that no longer exists. -/

namespace PrisonVisits

open Rows Table

theorem SessionTemplate.Hosts.fits {T : SessionTemplate} {v : Visit} (h : T.Hosts v) :
    T.fits v = true := by
  simp only [SessionTemplate.fits, h.fires, h.room, h.window, beq_self_eq_true, Bool.and_self]

/-- Only where the visit is and when counts. -/
theorem SessionTemplate.fits_of_sits (T : SessionTemplate) {v w : Visit} (h : v.SitsAs w) :
    T.fits v = T.fits w := by
  have hdate : v.date = w.date := congrArg (·.start.date) h.window
  rw [fits, fits, hdate, h.room, h.window]

/-- The action is an update of the visit's template that leaves the visit out. -/
def Action.LeavesOut (a : Action) (v : Visit) : Prop :=
  ∃ draft, a = .updateTemplate v.sessionTemplateReference draft ∧
    (SessionTemplate.ofDraft v.sessionTemplateReference draft true).fits v = false

theorem Action.LeavesOut.sits {a : Action} {v w : Visit} (h : a.LeavesOut w) (hsits : v.SitsAs w) :
    a.LeavesOut v := by
  obtain ⟨draft, ha, hfits⟩ := h
  refine ⟨draft, ?_, ?_⟩
  · rw [hsits.template]
    exact ha
  · rw [hsits.template, SessionTemplate.fits_of_sits _ hsits]
    exact hfits

namespace Desk

/-- The update is accepted, for the visit has begun. -/
structure Overtakes (d : Desk) (a : Action) (v : Visit) : Prop where
  leavesOut : a.LeavesOut v
  begun : v.window.start < d.now
  accepted : d.Accepts a

theorem Overtakes.sits {d : Desk} {a : Action} {v w : Visit} (h : d.Overtakes a w)
    (hsits : v.SitsAs w) : d.Overtakes a v where
  leavesOut := h.leavesOut.sits hsits
  begun := by
    rw [hsits.window]
    exact h.begun
  accepted := h.accepted

/-- Some action of the run overtakes the visit. -/
def Overtook (d : Desk) (actions : List Action) (v : Visit) : Prop :=
  ∃ earlier a later, actions = earlier ++ a :: later ∧ (d.run earlier).Overtakes a v

theorem Overtook.sits {d : Desk} {actions : List Action} {v w : Visit} (h : d.Overtook actions w)
    (hsits : v.SitsAs w) : d.Overtook actions v := by
  obtain ⟨earlier, a, later, hsplit, hovertakes⟩ := h
  exact ⟨earlier, a, later, hsplit, hovertakes.sits hsits⟩

end Desk

namespace Rows

variable {t : Rows} {late : Visit → Prop}

/-- The visit fits the template that is stored under its reference. -/
def Fitting (t : Rows) (v : Visit) : Prop :=
  ∃ T, t.templates[v.sessionTemplateReference]? = some T ∧ T.fits v = true

/-- Visits that are not cancelled fit their templates, but for those that are late. -/
def FittingBut (late : Visit → Prop) (t : Rows) : Prop :=
  ∀ v, t.HasVisit v → v.isCancelled = false → t.Fitting v ∨ late v

theorem Fitting.sits {t' : Rows} {v w : Visit} (h : t.Fitting w)
    (htemplates : t'.templates = t.templates) (hsits : v.SitsAs w) : t'.Fitting v := by
  obtain ⟨T, hT, hfits⟩ := h
  refine ⟨T, ?_, (T.fits_of_sits hsits).trans hfits⟩
  rw [htemplates, hsits.template]
  exact hT

theorem FittingBut.first (h : t.FittingBut late) (n : Nat) : (t.first n).FittingBut late := by
  intro v hv hlive
  by_cases hn : 4 ≤ n
  · have htemplates : (t.first n).templates = t.templates := if_pos (by omega)
    exact (h v hv.of_first hlive).imp_left fun hfitting => hfitting.sits htemplates (.refl v)
  · have hnone : (t.first n).visits = ∅ := if_neg hn
    simp [HasVisit, hnone] at hv

/-- A template may be saved if the visits that name it fit it or are late. -/
theorem FittingBut.templateSaved (h : t.FittingBut late) {T : SessionTemplate}
    (hT : ∀ v, t.HasVisit v → v.isCancelled = false → v.sessionTemplateReference = T.reference →
      T.fits v = true ∨ late v) : (t.apply (.templateSaved T)).FittingBut late := by
  intro v hv hlive
  simp only [Fitting, apply, getElem?_insert]
  by_cases hkey : T.reference = v.sessionTemplateReference
  · rw [if_pos hkey]
    exact (hT v hv hlive hkey.symm).imp_left fun hfits => ⟨T, rfl, hfits⟩
  · rw [if_neg hkey]
    exact h v hv hlive

theorem FittingBut.templateDeleted (h : t.FittingBut late) {reference : Reference}
    (hunused : ∀ v, t.HasVisit v → v.sessionTemplateReference ≠ reference) :
    (t.apply (.templateDeleted reference)).FittingBut late := by
  intro v hv hlive
  simp only [Fitting, apply, getElem?_erase]
  rw [if_neg (hunused v hv).symm]
  exact h v hv hlive

end Rows

namespace Desk

variable {d : Desk} {late : Visit → Prop}

/-! ## One action -/

theorem fittingBut_of_reseats (hfitting : d.store.rows.FittingBut late)
    (hlate : ∀ v w, v.SitsAs w → late w → late v) {a : Action} {c : Commit}
    (hkeyed : d.store.rows.Keyed) (hc : d.Reseats a c) :
    (d.store.rows.applyCommit c).FittingBut late := by
  have hstands : ∀ v, d.store.rows.Stands v → v.isCancelled = false →
      (d.store.rows.applyCommit c).templates = d.store.rows.templates →
      (d.store.rows.applyCommit c).Fitting v ∨ late v := by
    rintro v ⟨w, hw, hlive, hsits⟩ hv htemplates
    exact (hfitting w hw (hlive hv)).imp (·.sits htemplates hsits) (hlate v w hsits)
  intro v hv hlive
  cases hc with
  | stays templates others => exact hstands v (others v hv) hlive templates
  | @takes templates w T context slot takes others =>
    rcases others v hv with rfl | hstood
    · have hkey : T.reference = slot.template := hkeyed.templates _ T takes.admits.template
      refine .inl ⟨T, ?_, takes.hosts.fits⟩
      rw [templates, takes.template, hkey]
      exact takes.admits.template
    · exact hstands v hstood hlive templates

/-- The visits that an accepted update leaves out have begun. -/
theorem fittingBut_updateTemplate (h : d.store.Sound) (hfitting : d.store.rows.FittingBut late)
    {reference : Reference} {draft : TemplateDraft} {existing : SessionTemplate}
    (hstored : d.store.template? reference = some existing)
    (hfits : ∀ v ∈ d.store.liveVisits reference d.now,
      (SessionTemplate.ofDraft existing.reference draft existing.active).fits v = true)
    (hovertaken : ∀ v, (Action.updateTemplate reference draft).LeavesOut v →
      v.window.start < d.now → late v) :
    (d.store.rows.apply (.templateSaved
      (.ofDraft existing.reference draft existing.active))).FittingBut late := by
  have hkey : existing.reference = reference := h.keyed.templates reference _ hstored
  refine hfitting.templateSaved fun v hv hlive hsame => ?_
  have hown : v.sessionTemplateReference = reference := hsame.trans hkey
  by_cases hahead : d.now ≤ v.window.start
  · exact .inl (hfits v ((mem_liveVisits h).mpr ⟨⟨hv, hown⟩, hlive, hahead⟩))
  · cases hsits : (SessionTemplate.ofDraft existing.reference draft existing.active).fits v with
    | true => exact .inl rfl
    | false =>
      refine .inr (hovertaken v ⟨draft, ?_, ?_⟩ (not_le.mp hahead))
      · rw [hown]
      · rw [hown, ← hkey]
        exact hsits

/-- What an action commits leaves every visit fitting that is not late, if the visits that it
overtakes are. -/
theorem fittingBut_of_writes (h : d.store.Linked) (hfitting : d.store.rows.FittingBut late)
    (hlate : ∀ v w, v.SitsAs w → late w → late v) {a : Action} {c : Commit}
    (hovertaken : ∀ v, a.LeavesOut v → v.window.start < d.now → late v) (hw : d.Writes a c) :
    (d.store.rows.applyCommit c).FittingBut late := by
  cases hedits : a.editsTemplates with
  | false =>
    exact fittingBut_of_reseats hfitting hlate h.sound.keyed (reseats_of_writes h hw hedits)
  | true =>
    cases hw with
    | @createTemplate draft reference conflicts checked room unused compared =>
      refine hfitting.templateSaved fun v hv hlive hsame => ?_
      rcases hfitting v hv hlive with ⟨S, hS, -⟩ | hlate
      · change v.sessionTemplateReference = reference at hsame
        rw [hsame, (h.sound.unused unused).template] at hS
        cases hS
      · exact .inr hlate
    | updateTemplate checked stored prison fits compared =>
      exact fittingBut_updateTemplate h.sound hfitting stored fits hovertaken
    | @setTemplateActive reference active template stored turned idle =>
      have hkey : template.reference = reference := h.sound.keyed.templates reference _ stored
      refine hfitting.templateSaved fun v hv hlive hsame => ?_
      refine (hfitting v hv hlive).imp_left fun hfits => ?_
      obtain ⟨S, hS, hfits⟩ := hfits
      change v.sessionTemplateReference = template.reference at hsame
      rw [hsame, hkey] at hS
      cases hS.symm.trans stored
      exact hfits
    | @deleteTemplate reference template stored inactive unused =>
      refine hfitting.templateDeleted fun v hv hsame => ?_
      have hmem := h.sound.mem_visitsForTemplate.mpr ⟨hv, hsame⟩
      rw [unused] at hmem
      cases hmem
    | createGroup | updateGroup | deleteGroup | reserve | change | amend | book | cancel | discard
    | expire => cases hedits

theorem preserved_fittingBut (late : Visit → Prop)
    (hlate : ∀ v w, v.SitsAs w → late w → late v) :
    Preserved False (fun d a => ∀ v, a.LeavesOut v → v.window.start < d.now → late v)
      (fun _ t => t.FittingBut late)
      (fun _ commits => (Store.ofCommits commits).rows.FittingBut late) := by
  refine preserved_of_rows (fun _ v hleaves => ?_) (fun _ v hv => absurd hv (not_hasVisit_empty v))
    (fun h hfitting hovertaken hw => fittingBut_of_writes h hfitting hlate hovertaken hw)
    (fun _ hfitting _ => hfitting.first _) (fun _ _ h => h)
  obtain ⟨draft, ha, -⟩ := hleaves
  cases ha

/-! ## Runs -/

/-- What holds of an action wherever it stands in a run holds along the run. -/
theorem along_of_split {p : Desk → Action → Prop} {actions : List Action}
    (h : ∀ earlier a later, actions = earlier ++ a :: later → p (d.run earlier) a) :
    d.Along p actions := by
  induction actions generalizing d with
  | nil => trivial
  | cons a actions ih =>
    refine ⟨h [] a actions rfl, ih fun earlier b later hsplit => ?_⟩
    rw [hsplit] at h
    exact h (a :: earlier) b later rfl

/-- At the end of a run from an empty journal, a visit that is not cancelled fits its template
unless the run overtook it. -/
theorem fittingBut_overtook {policy : BookingPolicy} {now : Moment}
    {prisoners : Std.ExtTreeMap String PrisonerContext} {references : ReferenceSource}
    {actions : List Action}
    (hrange : (openOn #[] policy now prisoners references).Throughout InRange actions) :
    ((openOn #[] policy now prisoners references).run actions).store.rows.FittingBut
      ((openOn #[] policy now prisoners references).Overtook actions) := by
  have hpreserved := preserved_fittingBut
    ((openOn #[] policy now prisoners references).Overtook actions)
    fun _ _ hsits hw => hw.sits hsits
  have hkept := (kept_openOn hpreserved policy now prisoners references).run hpreserved hrange
    False.elim (along_of_split fun earlier a later hsplit haccepted v hleaves hbegun =>
      ⟨earlier, a, later, hsplit, hleaves, hbegun, haccepted⟩)
  exact hkept.last.live

/-- While the clock goes forward, a visit that a run overtook is not to come at its end. -/
theorem Overtook.not_ahead {actions : List Action} {v : Visit} (h : d.Overtook actions v)
    (hclock : d.Along ClockForward actions) : ¬(d.run actions).now ≤ v.window.start := by
  obtain ⟨earlier, a, later, rfl, hovertakes⟩ := h
  have hpast := le_now_run (along_append.mp hclock).2
  rw [run_append]
  exact fun hahead => (hpast.trans hahead).not_gt hovertakes.begun

theorem Promotes.template? {a : Application} {draft : Visit} {actionedBy : String} {after : Desk}
    (h : d.Promotes a draft actionedBy after) (reference : Reference) :
    after.store.template? reference = d.store.template? reference := by
  obtain ⟨visits, applications, audits, hstore⟩ := h.store
  rw [hstore]
  rfl

/-- Behind every run from an empty journal, a booking confirms a session that its active template
runs, unless the run overtook the visit; a visit to come is not overtaken while the clock goes
forward. -/
theorem hosted_or_overtook (policy : BookingPolicy) (now : Moment)
    (prisoners : Std.ExtTreeMap String PrisonerContext) (references : ReferenceSource)
    (actions : List Action)
    (hrange : (openOn #[] policy now prisoners references).Throughout InRange actions)
    (reference : Reference) (actionedBy : String) (v : Visit)
    (hbooked : (((openOn #[] policy now prisoners references).run actions).book reference
      actionedBy).1 = .ok v) :
    let first := openOn #[] policy now prisoners references
    let after := ((first.run actions).book reference actionedBy).2
    after.store.visit? v.id = some v ∧ v.isBooked = true ∧
      ∃ T, after.store.template? v.sessionTemplateReference = some T ∧ T.active = true ∧
        (T.Hosts v ∨ first.Overtook actions v) ∧
        (first.Along ClockForward actions → (first.run actions).now ≤ v.window.start →
          T.Hosts v) := by
  intro first after
  have hone := (kept_throughout preserved_oneBooked hrange False.elim).last
  have hlinked := hone.linked
  obtain ⟨a, draft, hpasses, rfl⟩ := passes_of_book hbooked
  have hkey : a.reference = reference :=
    hlinked.sound.keyed.applications reference a hpasses.stored
  subst hkey
  have hpromotes : (first.run actions).Promotes a draft actionedBy after := by
    change (first.run actions).Promotes a draft actionedBy
      ((first.run actions).book a.reference actionedBy).2
    rw [book_of_passes hpasses]
    exact promotes_bookRecords hlinked hone.live hpasses.stored hpasses.drafted actionedBy
  obtain ⟨T, htemplate, hactive⟩ := hpasses.template hlinked
  -- the booked visit sits where the draft sat
  have hsits : (a.booked draft (first.run actions).now).SitsAs draft := by constructor <;> rfl
  have hhosted : T.Hosts (a.booked draft (first.run actions).now) ∨
      first.Overtook actions (a.booked draft (first.run actions).now) := by
    obtain ⟨hrow, hdraft, -⟩ := hlinked.sound.of_draft? hpasses.drafted
    refine (fittingBut_overtook hrange draft hrow (Visit.isCancelled_of_isDraft hdraft)).imp ?_ ?_
    · rintro ⟨S, hS, hfits⟩
      cases htemplate.symm.trans hS
      exact (SessionTemplate.hosts_of_fits hactive hfits).sits hsits
    · exact fun hovertook => hovertook.sits hsits
  refine ⟨hpromotes.booked, rfl, T, (hpromotes.template? _).trans htemplate, hactive, hhosted,
    fun hclock hahead => ?_⟩
  exact hhosted.resolve_right fun hovertook => hovertook.not_ahead hclock hahead

/-- Application c is booked on the Monday morning of its visit, which template a hosts. -/
theorem hosted_or_overtook_sample :
    let d := Sample.desk.run Sample.weekend
    Sample.desk.Throughout InRange Sample.weekend ∧
      ∃ v T, (d.book "c" "clerk").1 = .ok v ∧
        (d.book "c" "clerk").2.store.template? v.sessionTemplateReference = some T ∧
        T.Hosts v := by
  intro d
  have hrange := throughout_inRange (m := 0) (by decide) (by decide +kernel)
    Sample.along_weekend (by decide)
  have hclock : Sample.desk.Along ClockForward Sample.weekend := by
    refine ⟨trivial, trivial, trivial, ?_, trivial⟩
    change (Sample.desk.run Sample.actions).now ≤ _
    decide +kernel
  have hgranted : (d.book "c" "clerk").1.map (fun v => decide (d.now ≤ v.window.start)) =
      .ok true := by
    decide +kernel
  obtain ⟨v, hbooked, hahead⟩ := map_eq_ok.mp hgranted
  obtain ⟨-, -, T, hT, -, -, hhosts⟩ := hosted_or_overtook Sample.policy _ _ Sample.letters
    Sample.weekend hrange "c" "clerk" v hbooked
  exact ⟨hrange, v, T, hbooked, hT, hhosts hclock (of_decide_eq_true hahead)⟩

end Desk

namespace Sample

/-- The Monday of the visit passes, and in the evening template a moves to Tuesdays. -/
def overtaking : List Action :=
  actions ++ [.setClock ⟨monday, time 20 (by decide)⟩,
    .updateTemplate "a" { mondays with dayOfWeek := .tuesday }]

theorem along_overtaking : desk.Along (Desk.AppendsAtMost 1000) overtaking := by
  refine ⟨⟨nofun, ?_, ?_⟩, ⟨nofun, ?_, ?_⟩, ⟨nofun, ?_, ?_⟩, ⟨nofun, ?_, ?_⟩, ⟨nofun, ?_, ?_⟩,
    trivial⟩
  all_goals decide +kernel

end Sample

/-- The clock never goes back, and yet application c confirms a Monday of a template that only runs
on Tuesdays. -/
theorem Desk.book_overtaken :
    let d := Sample.desk.run Sample.overtaking
    Sample.desk.Throughout InRange Sample.overtaking ∧
      Sample.desk.Along ClockForward Sample.overtaking ∧
      ∃ v T, (d.book "c" "clerk").1 = .ok v ∧
        (d.book "c" "clerk").2.store.template? v.sessionTemplateReference = some T ∧
        T.active = true ∧ T.schedule.firesOn v.date = false ∧ ¬T.Hosts v := by
  intro d
  have hrange := throughout_inRange (m := 0) (by decide) (by decide +kernel)
    Sample.along_overtaking (by decide)
  have hclock : Sample.desk.Along ClockForward Sample.overtaking := by
    refine ⟨trivial, trivial, trivial, ?_, trivial, trivial⟩
    change (Sample.desk.run Sample.actions).now ≤ _
    decide +kernel
  have hgranted : (d.book "c" "clerk").1.map (fun v =>
      ((d.book "c" "clerk").2.store.template? v.sessionTemplateReference).map fun T =>
        (T.active, T.schedule.firesOn v.date)) = .ok (some (true, false)) := by
    decide +kernel
  obtain ⟨v, hbooked, hstored⟩ := map_eq_ok.mp hgranted
  obtain ⟨T, hT, hfacts⟩ := Option.map_eq_some_iff.mp hstored
  obtain ⟨hactive, hidle⟩ := Prod.mk.inj hfacts
  refine ⟨hrange, hclock, v, T, hbooked, hT, hactive, hidle, fun hhosts => ?_⟩
  rw [hhosts.fires] at hidle
  cases hidle

end PrisonVisits
