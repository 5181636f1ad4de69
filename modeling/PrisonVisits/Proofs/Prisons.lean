import PrisonVisits.Proofs.Backing
import PrisonVisits.Proofs.Capacity

/-! # Visits and applications in the prison of their template

Reserving and changing take the prison over from the session. Amending moves an application and its
draft to another session but leaves their prison as it was; that is wrong as soon as the prisoner
has been transferred in between, and only then. In every other run visits and applications stay in
the prison of their templates. -/

namespace PrisonVisits

open Rows Table

/-- Every visit that is not cancelled and every application names a template of its prison. -/
def Store.PrisonsAgree (s : Store) : Prop :=
  (∀ (id : UInt64) (v : Visit), s.visits[id]? = some v → v.isCancelled = false →
    ∃ T, s.template? v.sessionTemplateReference = some T ∧ T.prisonCode = v.prisonCode) ∧
  ∀ (reference : Reference) (a : Application), s.application? reference = some a →
    ∃ T, s.template? a.sessionTemplateReference = some T ∧ T.prisonCode = a.prisonCode

/-- The action amends an application to another slot, and its prisoner is no longer held in its
prison. -/
def Desk.Displaces (d : Desk) (a : Action) : Prop :=
  ∃ reference m existing context, a = .amend reference m ∧
    d.store.application? reference = some existing ∧ amendedSlot existing m ≠
      ⟨existing.sessionTemplateReference, existing.sessionDate, existing.restriction⟩ ∧
    d.prisoners[existing.prisonerId]? = some context ∧ context.prisonCode ≠ existing.prisonCode

namespace Rows

/-- Every visit names a stored template of its prison, and every application has a visit in its
place. -/
structure Anchored (t : Rows) : Prop where
  visit : ∀ v, t.HasVisit v →
    ∃ T, t.templates[v.sessionTemplateReference]? = some T ∧ T.prisonCode = v.prisonCode
  backed : t.Backed

theorem anchored_empty : Store.empty.rows.Anchored where
  visit := fun v hv => absurd hv (not_hasVisit_empty v)
  backed := by
    intro reference a ha
    simp [Store.rows, Store.empty] at ha

variable {t : Rows}

theorem Anchored.prisonsAgree {s : Store} (h : s.rows.Anchored) (hkeyed : s.rows.Keyed) :
    s.PrisonsAgree := by
  refine ⟨fun id v hv _ => h.visit v ?_, fun reference a ha => ?_⟩
  · have hid : v.id = id := hkeyed.visits id v hv
    rw [HasVisit, hid]
    exact hv
  · obtain ⟨v, hv, hbacked⟩ := h.backed reference a ha
    obtain ⟨T, hT, hprison⟩ := h.visit v hv
    exact ⟨T, by rw [← hbacked.template]; exact hT, hprison.trans hbacked.prison⟩

end Rows

namespace Desk

variable {d : Desk}

theorem anchored_of_reseats (h : d.store.Linked) (hanchored : d.store.rows.Anchored) {a : Action}
    {c : Commit} (hkept : ¬d.Displaces a) (hc : d.Reseats a c) (v : Visit)
    (hv : (d.store.rows.applyCommit c).HasVisit v) :
    ∃ T, (d.store.rows.applyCommit c).templates[v.sessionTemplateReference]? = some T ∧
      T.prisonCode = v.prisonCode := by
  cases hc with
  | stays templates others =>
    obtain ⟨w, hw, -, hsits⟩ := others v hv
    rw [templates, hsits.template, hsits.prison]
    exact hanchored.visit w hw
  | @takes templates w T context slot takes others =>
    rw [templates]
    rcases others v hv with rfl | ⟨u, hu, -, hsits⟩
    · have hkey : T.reference = slot.template := h.sound.keyed.templates _ T takes.admits.template
      refine ⟨T, by rw [takes.template, hkey]; exact takes.admits.template, ?_⟩
      rcases takes.prison with hsame |
        ⟨reference, m, existing, draft, rfl, hstored, hdrafted, hmoves, hprison, hwho⟩
      · exact hsame.symm
      have hdrafts := h.drafts hstored hdrafted
      rw [takes.admits.heldThere, hprison, hdrafts.prison]
      refine Classical.byContradiction fun hne => hkept
        ⟨reference, m, existing, context, rfl, hstored, hmoves, ?_, hne⟩
      rw [← hdrafts.prisoner, ← hwho]
      exact takes.known
    · rw [hsits.template, hsits.prison]
      exact hanchored.visit u hu

theorem anchored_templateSaved (hanchored : d.store.rows.Anchored) {T : SessionTemplate}
    (hsame : ∀ old, d.store.rows.templates[T.reference]? = some old → old.prisonCode = T.prisonCode)
    (v : Visit) (hv : d.store.rows.HasVisit v) :
    ∃ S, (d.store.rows.apply (.templateSaved T)).templates[v.sessionTemplateReference]? = some S ∧
      S.prisonCode = v.prisonCode := by
  obtain ⟨S, hS, hprison⟩ := hanchored.visit v hv
  simp only [apply, getElem?_insert]
  by_cases hkey : T.reference = v.sessionTemplateReference
  · rw [if_pos hkey]
    rw [← hkey] at hS
    exact ⟨T, rfl, (hsame S hS).symm.trans hprison⟩
  · rw [if_neg hkey]
    exact ⟨S, hS, hprison⟩

theorem anchored_templateReplaced (h : d.store.Sound) (hanchored : d.store.rows.Anchored)
    {reference : Reference} {existing T : SessionTemplate}
    (hstored : d.store.template? reference = some existing)
    (hkey : T.reference = existing.reference)
    (hprison : existing.prisonCode = T.prisonCode) (v : Visit) (hv : d.store.rows.HasVisit v) :
    ∃ S, (d.store.rows.apply (.templateSaved T)).templates[v.sessionTemplateReference]? = some S ∧
      S.prisonCode = v.prisonCode := by
  refine anchored_templateSaved hanchored (fun old hold => ?_) v hv
  rw [hkey, h.keyed.templates reference existing hstored] at hold
  cases hold.symm.trans hstored
  exact hprison

/-- What an action commits leaves visits and applications in the prisons of their templates, unless
it displaces one. -/
theorem anchored_of_writes (h : d.store.Linked) (hanchored : d.store.rows.Anchored) {a : Action}
    {c : Commit} (hkept : ¬d.Displaces a) (hw : d.Writes a c) :
    (d.store.rows.applyCommit c).Anchored := by
  refine ⟨fun v hv => ?_, backed_of_writes h hanchored.backed hw⟩
  cases hedits : a.editsTemplates with
  | false => exact anchored_of_reseats h hanchored hkept (reseats_of_writes h hw hedits) v hv
  | true =>
    cases hw with
    | @createTemplate draft reference conflicts checked room unused compared =>
      refine anchored_templateSaved hanchored (fun old hold => ?_) v hv
      have hnone := (h.sound.unused unused).template
      cases hold.symm.trans hnone
    | updateTemplate checked stored prison fits compared =>
      exact anchored_templateReplaced h.sound hanchored stored (by rfl) prison v hv
    | setTemplateActive stored turned idle =>
      exact anchored_templateReplaced h.sound hanchored stored (by rfl) (by rfl) v hv
    | @deleteTemplate reference template stored inactive unused =>
      have hv : d.store.rows.HasVisit v := hv
      have hother : reference ≠ v.sessionTemplateReference := by
        intro hsame
        have hmem := h.sound.mem_visitsForTemplate.mpr ⟨hv, hsame.symm⟩
        rw [unused] at hmem
        cases hmem
      obtain ⟨S, hS, hprison⟩ := hanchored.visit v hv
      refine ⟨S, ?_, hprison⟩
      change (d.store.rows.templates.erase reference)[v.sessionTemplateReference]? = some S
      rw [getElem?_erase, if_neg hother]
      exact hS
    | createGroup | updateGroup | deleteGroup | reserve | change | amend | book | cancel | discard
    | expire => cases hedits

/-- Where journals are read to their ends, runs that displace nothing keep visits and applications
in the prisons of their templates. -/
theorem preserved_anchored : Preserved True (fun d a => ¬d.Displaces a) (fun _ t => t.Anchored)
    (fun _ commits => (Store.ofCommits commits).rows.Anchored) := by
  refine preserved_of_rows (fun d => ?_) (fun _ => anchored_empty) ?_ ?_ (fun _ _ h => h)
  · rintro ⟨_, _, _, _, heq, -⟩
    cases heq
  · exact fun h hanchored hkept hw => anchored_of_writes h hanchored hkept hw
  · intro t around n _ hanchored hn
    rw [first_all (hn trivial)]
    exact hanchored

/-- An accepted amendment that displaces its application leaves it in the wrong prison. -/
theorem not_prisonsAgree_of_displaces (h : d.store.Sound) {a : Action} (haccepts : d.Accepts a)
    (hdisplaces : d.Displaces a) : ¬(d.perform a).store.PrisonsAgree := by
  obtain ⟨reference, m, existing, context, rfl, hstored, hmoves, hknown, helsewhere⟩ := hdisplaces
  have hrows := rows_perform (d := d) (a := .amend reference m) nofun
  have hwrites := writes_of_accepts (a := .amend reference m) rfl haccepts rfl
  generalize d.recordsOf (.amend reference m) = records at hrows hwrites
  cases hwrites with
  | @amend _ _ existing' placed draft moved stored incomplete drafted counts placing =>
  cases hstored.symm.trans stored
  rcases placeAmended_eq_ok placing with ⟨hsame, -, -⟩ | ⟨-, context', T, hknown', hadmits, rfl, -⟩
  · exact absurd hsame hmoves
  cases hknown.symm.trans hknown'
  intro hagree
  have hkey : T.reference = (amendedSlot existing m).template :=
    h.keyed.templates _ T hadmits.template
  obtain ⟨S, hS, hprison⟩ := hagree.2 existing.reference _ (by
    change (d.perform (.amend reference m)).store.rows.applications[existing.reference]? = _
    rw [hrows]
    exact Std.ExtTreeMap.getElem?_insert_self)
  change (d.perform (.amend reference m)).store.rows.templates[T.reference]? = some S at hS
  rw [hrows] at hS
  have hstored' : d.store.rows.templates[T.reference]? = some T := by
    rw [hkey]
    exact hadmits.template
  cases hstored'.symm.trans hS
  exact helsewhere (hadmits.heldThere.symm.trans hprison)

/-- Every visit that is not cancelled and every application agrees with its template about the
prison, all along a run from an empty journal, exactly if no accepted amendment of the run displaces
an application. -/
theorem prisons_agree_iff (policy : BookingPolicy) (now : Moment)
    (prisoners : Std.ExtTreeMap String PrisonerContext) (references : ReferenceSource)
    (actions : List Action)
    (hrange : (openOn #[] policy now prisoners references).Throughout InRange actions)
    (hread : (openOn #[] policy now prisoners references).Throughout ReadToEnd actions) :
    (openOn #[] policy now prisoners references).Throughout
        (fun d => d.store.PrisonsAgree) actions ↔
      (openOn #[] policy now prisoners references).Along
        (fun d a => d.Accepts a → ¬d.Displaces a) actions := by
  constructor
  · intro hagree
    have hlinked := linked_throughout hrange
    generalize openOn #[] policy now prisoners references = d at hagree hlinked
    clear hrange hread
    induction actions generalizing d with
    | nil => trivial
    | cons a actions ih =>
      refine ⟨fun haccepts hdisplaces => ?_, ih _ hagree.2 hlinked.2⟩
      exact not_prisonsAgree_of_displaces hlinked.1.sound haccepts hdisplaces hagree.2.head
  · intro hkept
    have hall := (kept_openOn preserved_anchored policy now prisoners references).run
      preserved_anchored hrange (fun _ => hread) hkept
    exact hall.imp fun d h => h.live.prisonsAgree h.linked.sound.keyed

end Desk

namespace Sample

/-- Application d for booking c is amended to template b, in the prisoner's new prison. -/
def amendment : Amendment := ⟨some "b", none, none, none, none, none, "clerk"⟩

def transfer : List Action :=
  [.createTemplate mondays, .createTemplate { mondays with prisonCode := "MDI" },
    .setPrisoner ⟨"A0001AA", "HEI", none, none, none⟩, .reserve reservation,
    .setPrisoner ⟨"A0001AA", "MDI", none, none, none⟩, .amend "d" amendment]

theorem along_transfer : desk.Along (Desk.AppendsAtMost 1000) transfer := by
  refine ⟨⟨nofun, ?_, ?_⟩, ⟨nofun, ?_, ?_⟩, ⟨nofun, ?_, ?_⟩, ⟨nofun, ?_, ?_⟩, ⟨nofun, ?_, ?_⟩,
    ⟨nofun, ?_, ?_⟩, trivial⟩
  all_goals decide +kernel

theorem displaces_transfer :
    (desk.run (transfer.take 5)).Accepts (.amend "d" amendment) ∧
      (desk.run (transfer.take 5)).Displaces (.amend "d" amendment) := by
  constructor
  · rintro plan ⟨⟩
    decide +kernel
  · have hstored : ((desk.run (transfer.take 5)).store.application? "d").isSome = true := by
      decide +kernel
    refine ⟨"d", amendment, _, ⟨"A0001AA", "MDI", none, none, none⟩, rfl,
      (Option.some_get hstored).symm, ?_, ?_, ?_⟩
    all_goals decide +kernel +revert

end Sample

theorem Desk.prisons_agree_iff_transfer :
    Sample.desk.Throughout InRange Sample.transfer ∧
      Sample.desk.Throughout ReadToEnd Sample.transfer ∧
      ¬Sample.desk.Throughout (fun d => d.store.PrisonsAgree) Sample.transfer := by
  have hrange := Desk.throughout_inRange (m := 0) (by decide) (by decide +kernel)
    Sample.along_transfer (by decide)
  have hread := Desk.throughout_readToEnd [] rfl (by simp) Sample.along_transfer
    (by decide)
  refine ⟨hrange, hread, fun hagree => ?_⟩
  obtain ⟨haccepts, hdisplaces⟩ := Sample.displaces_transfer
  have hkept := (prisons_agree_iff Sample.policy _ _ Sample.letters Sample.transfer hrange hread).mp
    hagree
  exact hkept.2.2.2.2.2.1 haccepts hdisplaces

end PrisonVisits
