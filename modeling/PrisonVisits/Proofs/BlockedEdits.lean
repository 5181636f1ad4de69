import PrisonVisits.Proofs.PendingChanges

/-! # Edits of a template that visits stand in the way of

An update is refused for the visits to come that it leaves out, switching a template off for all of
its visits to come, and deleting it for any visit. The refusal names the bookings of exactly those
visits. A deletion names each of them once, but the other two name a booking once for every visit of
it, so a booking with a pending change can be named twice. -/

namespace PrisonVisits

open Rows

/-- An edit of a template that visits can stand in the way of. -/
inductive TemplateEdit where
  | update (draft : TemplateDraft)
  | switchOff
  | delete

namespace TemplateEdit

/-- The request for the edit of a template. -/
def action (reference : Reference) : TemplateEdit → Action
  | update draft => .updateTemplate reference draft
  | switchOff => .setTemplateActive reference false
  | delete => .deleteTemplate reference

/-- What an edit of a template is refused for if visits stand in its way. -/
def clash (reference : Reference) : TemplateEdit → Clash
  | update _ => .strandsVisits reference
  | switchOff => .futureVisits reference
  | delete => .visitsRemain reference

/-- The visit would stand in the way of the edit if it were one of the template. -/
def Minds (now : Moment) (v : Visit) : TemplateEdit → Prop
  | update draft =>
    v.ToCome now ∧ (SessionTemplate.ofDraft v.sessionTemplateReference draft true).fits v = false
  | switchOff => v.ToCome now
  | delete => True

end TemplateEdit

namespace Desk

/-- The visit stands in the way of the edit of the template. -/
structure Blocks (d : Desk) (reference : Reference) (e : TemplateEdit) (v : Visit) : Prop where
  stored : d.store.rows.HasVisit v
  template : v.sessionTemplateReference = reference
  minds : e.Minds d.now v

/-- The references are those of the bookings whose visits stand in the way of the edit. But for a
deletion there is one for each visit, so none is repeated if no booking has two visits in the way.
-/
structure NamesBlocking (d : Desk) (reference : Reference) (e : TemplateEdit)
    (references : List Reference) : Prop where
  some : references ≠ []
  mem : ∀ booking, booking ∈ references ↔ ∃ v, d.Blocks reference e v ∧ v.reference = booking
  each : e ≠ .delete → ∃ visits : List Visit, visits.Nodup ∧
    (∀ v, v ∈ visits ↔ d.Blocks reference e v) ∧ references = visits.map (·.reference)
  once : references.Nodup ↔ e = .delete ∨ ∀ v w, d.Blocks reference e v → d.Blocks reference e w →
    v.reference = w.reference → v = w

/-- The edit of the template stops at the visits in its way, and says whose they are. Only a
template that is off already can be switched off once more. -/
structure StopsAtVisits (d : Desk) (reference : Reference) (e : TemplateEdit) : Prop where
  named : ∀ (clash : Clash) (references : List Reference),
    d.answer? (e.action reference) = some (.error (.conflict clash references)) →
      clash = e.clash reference ∧ d.NamesBlocking reference e references ∨
        e = .delete ∧ clash = .templateActive ∧ references = [reference]
  stopped : ∀ v, d.Blocks reference e v → d.answer? (e.action reference) = some (.ok ()) →
    e = .switchOff ∧ ∃ T, d.store.template? reference = some T ∧ T.active = false

variable {d : Desk} {reference : Reference} {e : TemplateEdit} {references : List Reference}
  {clash : Clash}

/-! ## What the lists hold -/

theorem mem_liveVisits_iff_blocks (h : d.store.Sound) {v : Visit} :
    v ∈ d.store.liveVisits reference d.now ↔ d.Blocks reference .switchOff v :=
  (mem_liveVisits h).trans ⟨fun ⟨⟨hv, hown⟩, htoCome⟩ => ⟨hv, hown, htoCome⟩,
    fun hblocks => ⟨⟨hblocks.stored, hblocks.template⟩, hblocks.minds⟩⟩

theorem mem_visitsForTemplate_iff_blocks (h : d.store.Sound) {v : Visit} :
    v ∈ d.store.visitsForTemplate reference ↔ d.Blocks reference .delete v :=
  h.mem_visitsForTemplate.trans ⟨fun ⟨hv, hown⟩ => ⟨hv, hown, trivial⟩,
    fun hblocks => ⟨hblocks.stored, hblocks.template⟩⟩

/-- The visits to come that an update of a stored template leaves out. -/
def stranded (d : Desk) (T : SessionTemplate) (draft : TemplateDraft) (reference : Reference) :
    List Visit :=
  (d.store.liveVisits reference d.now).filter fun v =>
    !(SessionTemplate.ofDraft T.reference draft T.active).fits v

theorem mem_stranded_iff_blocks (h : d.store.Sound) {T : SessionTemplate} {draft : TemplateDraft}
    {v : Visit} : v ∈ d.stranded T draft reference ↔ d.Blocks reference (.update draft) v := by
  -- neither the reference nor the activity of the draft's template bears on what fits
  have hsame : (SessionTemplate.ofDraft T.reference draft T.active).fits v =
      (SessionTemplate.ofDraft v.sessionTemplateReference draft true).fits v := rfl
  rw [stranded, List.mem_filter, mem_liveVisits_iff_blocks h, Bool.not_eq_true', hsame]
  exact ⟨fun ⟨hblocks, hleft⟩ => ⟨hblocks.stored, hblocks.template, hblocks.minds, hleft⟩,
    fun hblocks => ⟨⟨hblocks.stored, hblocks.template, hblocks.minds.1⟩, hblocks.minds.2⟩⟩

/-- One reference for each visit in the way. -/
theorem namesBlocking_map {visits : List Visit} (hnodup : visits.Nodup)
    (hmem : ∀ v, v ∈ visits ↔ d.Blocks reference e v) (hsome : visits ≠ []) (he : e ≠ .delete) :
    d.NamesBlocking reference e (visits.map (·.reference)) where
  some := by simpa using hsome
  mem booking := by simp only [List.mem_map, hmem]
  each _ := ⟨visits, hnodup, hmem, rfl⟩
  once := by
    simp only [he, false_or, ← hmem]
    exact ⟨fun h v w hv hw => List.inj_on_of_nodup_map h hv hw,
      fun h => hnodup.map_on fun v hv w hw => h v w hv hw⟩

theorem nodup_sortedReferences (references : List Reference) :
    (sortedReferences references).Nodup := by
  refine Std.ExtTreeSet.distinct_toList.imp fun hne heq => hne ?_
  exact Std.LawfulEqCmp.compare_eq_iff_eq.mpr heq

theorem nodup_visitsForTemplate (h : d.store.Sound) (reference : Reference) :
    (d.store.visitsForTemplate reference).Nodup := by
  rw [h.visitsForTemplate_eq]
  exact h.keyed.visits.ascending_values.nodup.filter _

end Desk

/-! ## What the plans are refused for -/

/-- Other rows stand in the way. -/
def Refusal.isConflict : Refusal → Bool
  | .conflict .. => true
  | _ => false

theorem TemplateDraft.avoids_check (t : TemplateDraft) : Avoids Refusal.isConflict t.check := by
  have hyear : ∀ date, Avoids Refusal.isConflict (checkYear date) := fun _ => avoids_require rfl _
  unfold check
  refine ((avoids_require rfl _).bind fun _ _ => avoids_require rfl _).bind fun _ _ => ?_
  refine (avoids_require rfl _).bind fun _ _ => ?_
  refine (avoids_require rfl _).bind fun _ _ => ?_
  cases t.validTo
  case' none => refine (hyear _).bind fun _ _ => ?_
  case' some validTo =>
    refine (avoids_require rfl _).bind fun _ _ => ?_
    refine (hyear _).bind fun _ _ => (hyear _).bind fun _ _ => ?_
  all_goals
    refine (avoids_require rfl _).bind fun _ _ => (avoids_require rfl _).bind fun _ _ => ?_
    exact (avoids_require rfl _).bind fun _ _ => avoids_require rfl _

namespace Store

theorem avoids_getTemplate (s : Store) (reference : Reference) :
    Avoids Refusal.isConflict (s.getTemplate reference) := avoids_found rfl _

theorem avoids_conflictsOf (s : Store) (T : SessionTemplate) :
    Avoids Refusal.isConflict (s.conflictsOf T) := by
  have hshape : ∀ t, Avoids Refusal.isConflict (s.shapeOf t) := fun t =>
    (s.avoids_eligibilityOf (fun _ _ => rfl) (fun _ => rfl) t).bind fun _ _ => avoids_ok _
  exact (hshape T).bind fun _ _ => (avoids_mapM fun t _ => hshape t).bind fun _ _ => avoids_ok _

end Store

namespace Desk

variable {d : Desk} {reference : Reference} {e : TemplateEdit} {references : List Reference}
  {clash : Clash}

theorem refused_updateTemplate {draft : TemplateDraft}
    (h : d.planUpdateTemplate reference draft = .error (.conflict clash references)) :
    ∃ T, d.store.template? reference = some T ∧ d.stranded T draft reference ≠ [] ∧
      clash = .strandsVisits reference ∧
      references = (d.stranded T draft reference).map (·.reference) := by
  unfold planUpdateTemplate at h
  obtain ⟨⟨⟩, -, h⟩ := draft.avoids_check.of_bind_eq_error rfl h
  obtain ⟨T, hT, h⟩ := (d.store.avoids_getTemplate reference).of_bind_eq_error rfl h
  refine ⟨T, found_eq_ok.mp hT, ?_⟩
  rcases require_bind_eq_error.mp h with ⟨-, hrefusal⟩ | ⟨-, h⟩
  · cases hrefusal
  rcases require_bind_eq_error.mp h with ⟨hsome, hrefusal⟩ | ⟨-, h⟩
  · cases hrefusal
    exact ⟨List.isEmpty_eq_false_iff.mp hsome, rfl, rfl⟩
  · obtain ⟨conflicts, -, h⟩ := (d.store.avoids_conflictsOf _).of_bind_eq_error rfl h
    cases h

theorem stranded_of_updated {draft : TemplateDraft} {t : Transition SavedTemplate}
    (h : d.planUpdateTemplate reference draft = .ok t) :
    ∃ T, d.stranded T draft reference = [] := by
  unfold planUpdateTemplate at h
  obtain ⟨⟨⟩, -, h⟩ := bind_eq_ok.mp h
  obtain ⟨T, -, h⟩ := bind_eq_ok.mp h
  obtain ⟨⟨⟩, -, h⟩ := bind_eq_ok.mp h
  obtain ⟨⟨⟩, hnone, -⟩ := bind_eq_ok.mp h
  exact ⟨T, List.isEmpty_iff.mp (require_eq_ok.mp hnone)⟩

theorem refused_switchOff
    (h : d.planSetActive reference false = .error (.conflict clash references)) :
    d.store.liveVisits reference d.now ≠ [] ∧ clash = .futureVisits reference ∧
      references = (d.store.liveVisits reference d.now).map (·.reference) := by
  unfold planSetActive at h
  obtain ⟨T, -, h⟩ := (d.store.avoids_getTemplate reference).of_bind_eq_error rfl h
  split at h
  · cases h
  · rcases require_bind_eq_error.mp h with ⟨hsome, hrefusal⟩ | ⟨-, h⟩
    · cases hrefusal
      exact ⟨List.isEmpty_eq_false_iff.mp hsome, rfl, rfl⟩
    · cases h

theorem inactive_or_idle_of_switchedOff {t : Transition SessionTemplate}
    (h : d.planSetActive reference false = .ok t) :
    (∃ T, d.store.template? reference = some T ∧ T.active = false) ∨
      d.store.liveVisits reference d.now = [] := by
  unfold planSetActive at h
  obtain ⟨T, hT, h⟩ := bind_eq_ok.mp h
  split at h
  · next hoff => exact .inl ⟨T, found_eq_ok.mp hT, eq_of_beq hoff⟩
  · obtain ⟨⟨⟩, hnone, -⟩ := bind_eq_ok.mp h
    exact .inr (List.isEmpty_iff.mp (require_eq_ok.mp hnone))

theorem refused_deleteTemplate
    (h : d.planDeleteTemplate reference = .error (.conflict clash references)) :
    (∃ T, d.store.template? reference = some T ∧ T.active = true ∧ clash = .templateActive ∧
        references = [T.reference]) ∨
      let users := (d.store.visitsForTemplate reference).map (·.reference)
      sortedReferences users ≠ [] ∧ clash = .visitsRemain reference ∧
        references = sortedReferences users := by
  unfold planDeleteTemplate at h
  obtain ⟨T, hT, h⟩ := (d.store.avoids_getTemplate reference).of_bind_eq_error rfl h
  rcases require_bind_eq_error.mp h with ⟨hactive, hrefusal⟩ | ⟨-, h⟩
  · cases hrefusal
    exact .inl ⟨T, found_eq_ok.mp hT, by simpa using hactive, rfl, rfl⟩
  · rcases require_bind_eq_error.mp h with ⟨hsome, hrefusal⟩ | ⟨-, h⟩
    · cases hrefusal
      exact .inr ⟨List.isEmpty_eq_false_iff.mp hsome, rfl, rfl⟩
    · cases h

theorem visitsForTemplate_of_deleted {t : Transition Unit}
    (h : d.planDeleteTemplate reference = .ok t) : d.store.visitsForTemplate reference = [] := by
  cases grants_deleteTemplate h with
  | nothing _ rests => cases rests
  | of _ writes =>
    cases writes with
    | deleteTemplate stored inactive unused => exact unused
  | start _ writes => cases writes

/-- A request without references to draw is refused for what its plan is refused for. -/
theorem error_of_answer {α : Type} {x : Except Refusal (Transition α)} {refusal : Refusal}
    (h : (d.transact (liftM x)).1.map (fun _ => ()) = .error refusal) : x = .error refusal := by
  rw [answer_lift] at h
  cases x with
  | error other =>
    cases h
    rfl
  | ok t => cases h

theorem ok_of_answer {α : Type} {x : Except Refusal (Transition α)}
    (h : (d.transact (liftM x)).1.map (fun _ => ()) = .ok ()) : ∃ t, x = .ok t := by
  rw [answer_lift] at h
  cases x with
  | error other => cases h
  | ok t => exact ⟨t, rfl⟩

/-! ## Every edit -/

theorem namesBlocking_of_answer (h : d.store.Sound)
    (hanswer : d.answer? (e.action reference) = some (.error (.conflict clash references))) :
    clash = e.clash reference ∧ d.NamesBlocking reference e references ∨
      e = .delete ∧ clash = .templateActive ∧ references = [reference] := by
  have hnodup : (d.store.liveVisits reference d.now).Nodup :=
    (nodup_visitsForTemplate h reference).filter _
  cases e with
  | update draft =>
    obtain ⟨T, -, hsome, rfl, rfl⟩ :=
      refused_updateTemplate (error_of_answer (Option.some.inj hanswer))
    exact .inl ⟨rfl, namesBlocking_map (hnodup.filter _) (fun _ => mem_stranded_iff_blocks h)
      hsome nofun⟩
  | switchOff =>
    obtain ⟨hsome, rfl, rfl⟩ := refused_switchOff (error_of_answer (Option.some.inj hanswer))
    exact .inl ⟨rfl, namesBlocking_map hnodup (fun _ => mem_liveVisits_iff_blocks h) hsome nofun⟩
  | delete =>
    rcases refused_deleteTemplate (error_of_answer (Option.some.inj hanswer)) with
      ⟨T, hT, -, rfl, rfl⟩ | ⟨hsome, rfl, rfl⟩
    · rw [h.keyed.templates reference T hT]
      exact .inr ⟨rfl, rfl, rfl⟩
    · refine .inl ⟨rfl, hsome, fun booking => ?_, fun hdelete => absurd rfl hdelete,
        iff_of_true (nodup_sortedReferences _) (.inl rfl)⟩
      rw [mem_sortedReferences, List.mem_map]
      exact exists_congr fun v => and_congr_left fun _ => mem_visitsForTemplate_iff_blocks h

theorem inactive_of_answer (h : d.store.Sound) {v : Visit} (hblocks : d.Blocks reference e v)
    (hanswer : d.answer? (e.action reference) = some (.ok ())) :
    e = .switchOff ∧ ∃ T, d.store.template? reference = some T ∧ T.active = false := by
  cases e with
  | update draft =>
    obtain ⟨t, ht⟩ := ok_of_answer (Option.some.inj hanswer)
    obtain ⟨T, hnone⟩ := stranded_of_updated ht
    exact absurd ((mem_stranded_iff_blocks h).mpr hblocks) (hnone ▸ List.not_mem_nil)
  | switchOff =>
    obtain ⟨t, ht⟩ := ok_of_answer (Option.some.inj hanswer)
    rcases inactive_or_idle_of_switchedOff ht with hinactive | hnone
    · exact ⟨rfl, hinactive⟩
    · exact absurd ((mem_liveVisits_iff_blocks h).mpr hblocks) (hnone ▸ List.not_mem_nil)
  | delete =>
    obtain ⟨t, ht⟩ := ok_of_answer (Option.some.inj hanswer)
    have hnone := visitsForTemplate_of_deleted ht
    exact absurd ((mem_visitsForTemplate_iff_blocks h).mpr hblocks) (hnone ▸ List.not_mem_nil)

/-- Along every run from an empty journal, the edits of templates stop at the visits in their way
and name the bookings of exactly those. -/
theorem stopsAtVisits_throughout (policy : BookingPolicy) (now : Moment)
    (prisoners : Std.ExtTreeMap String PrisonerContext) (source : ReferenceSource)
    (actions : List Action)
    (hrange : (openOn #[] policy now prisoners source).Throughout InRange actions) :
    (openOn #[] policy now prisoners source).Throughout
      (fun d => ∀ (reference : Reference) (e : TemplateEdit), d.StopsAtVisits reference e)
      actions :=
  (linked_throughout hrange).imp fun _ h _ _ =>
    ⟨fun _ _ => namesBlocking_of_answer h.sound, fun _ => inactive_of_answer h.sound⟩

end Desk

/-- While a change of booking b is pending, two of its visits keep template a switched on, and b is
named for each. -/
theorem Desk.stopsAtVisits_throughout_change :
    let d := Sample.desk.run Sample.pendingChange
    Sample.desk.Throughout InRange Sample.pendingChange ∧
      d.answer? (TemplateEdit.switchOff.action "a") =
        some (.error (.conflict (.futureVisits "a") ["b", "b"])) ∧
      d.NamesBlocking "a" .switchOff ["b", "b"] := by
  have hrange := Desk.throughout_inRange (m := 0) (by decide) (by decide +kernel)
    Sample.along_pendingChange (by decide)
  have hanswer : (Sample.desk.run Sample.pendingChange).answer?
      (TemplateEdit.switchOff.action "a") =
        some (.error (.conflict (.futureVisits "a") ["b", "b"])) := by
    decide +kernel
  have hstops := (stopsAtVisits_throughout Sample.policy _ _ Sample.letters Sample.pendingChange
    hrange).last "a" .switchOff
  refine ⟨hrange, hanswer, ?_⟩
  rcases hstops.named _ _ hanswer with ⟨-, hnames⟩ | ⟨hdelete, -⟩
  · exact hnames
  · cases hdelete

end PrisonVisits
