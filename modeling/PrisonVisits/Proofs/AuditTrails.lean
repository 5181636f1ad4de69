import PrisonVisits.Proofs.ApplicationLives
import PrisonVisits.Proofs.Restarts

/-! # Audit trails are faithful

As long as references do not come twice, the audits of a booking recount the life of each
application that was ever made for it, and the last of them says what is stored of the application.
Nothing is of a reference that is yet to be drawn, so no other life is mixed into that of a new
application. -/

namespace PrisonVisits

open Rows Table

namespace Store

/-- What the audits of an application's booking that name the application say, in order. -/
def historyOf (s : Store) (x : Application) : List AuditKind :=
  ((s.auditsFor x.bookingReference).filter fun a =>
    a.applicationReference == some x.reference).map (·.kind)

def visitsOf (s : Store) (application : Reference) : List Visit :=
  s.visits.values.filter fun v => v.applicationReference == application

/-- What is stored of an application is what is left of it when it has come to this. -/
structure Shows (s : Store) (x : Application) (e : Ending) : Prop where
  application : (s.application? x.reference).map (·.completed) = e.completed
  visits : (s.visitsOf x.reference).map (·.status) = (e.status x.kind).toList

/-- The audits tell of one life of the application, and what is stored of it is as they say. -/
structure Recounts (s : Store) (x : Application) : Prop where
  history : ∃ n e, s.historyOf x = x.kind.word n e
  shows : ∀ n e, s.historyOf x = x.kind.word n e → s.Shows x e

variable {s : Store}

theorem historyOf_eq (s : Store) (x : Application) :
    s.historyOf x = s.rows.trail x.bookingReference x.reference := rfl

theorem Sound.visitsOf_eq (h : s.Sound) {booking application : Reference} {f : Dossier}
    (hf : s.rows.Files booking application f) : s.visitsOf application = f.visit.toList := by
  have hrow : Ascending Visit.id f.visit.toList := by
    cases f.visit <;> simp [Ascending]
  refine (h.keyed.visits.ascending_values.sublist List.filter_sublist).eq_of_mem_iff hrow ?_
  intro v
  change v ∈ s.visits.values.filter _ ↔ _
  rw [List.mem_filter, beq_iff_eq, h.mem_visits, Option.mem_toList, ← hf.visit v]
  exact Iff.rfl

theorem recounts_of_life (h : s.Sound) {x : Application} (hlife : s.rows.Life x) :
    s.Recounts x := by
  obtain ⟨f, n, e, hf, hat⟩ := hlife
  have hhistory : s.historyOf x = x.kind.word n e := by
    rw [historyOf_eq, hf.trail, hat.trail]
  refine ⟨⟨n, e, hhistory⟩, fun m e' hword => ?_⟩
  have hending : e = e' := ApplicationKind.ending_of_word (hhistory.symm.trans hword)
  rw [← hending]
  refine ⟨?_, ?_⟩
  · rw [← hat.completed, ← hf.row]
    rfl
  · rw [h.visitsOf_eq hf, ← hat.status]
    cases f.visit <;> rfl

end Store

namespace Desk

variable {d : Desk} {a : Action} {x : Application} {actions : List Action}

/-! ## One action -/

/-- A sweep keeps a property of the rows that every discard keeps. -/
theorem keeps_expiryCommits {P : Rows → Prop} (hP : P d.store.rows) (h : d.store.Linked)
    (hids : d.store.nextVisitId + 1 ≠ 0) (hwrites : ∀ {e : Desk} {c}, e.store.Linked →
      P e.store.rows → e.Writes .expire c → P (e.store.rows.applyCommit c))
    (references : List Reference) :
    P (d.store.rows.applyCommit (d.expiryCommits references).flatten) := by
  induction references generalizing d with
  | nil => exact hP
  | cons reference references ih =>
    have hstore := discardExpired_store d reference
    have hnext : (d.discardExpired reference).store.nextVisitId = d.store.nextVisitId := by
      rw [hstore, nextVisitId_applyCommit (no_visit_expiryRecords d reference)]
    rw [expiryCommits, List.flatten_cons, applyCommit_append, ← Store.rows_applyCommit, ← hstore]
    by_cases hnone : d.expiryRecords reference = []
    · rw [hnone] at hstore
      exact ih (hstore ▸ hP) (hstore ▸ h) (hnext ▸ hids)
    · have hw := writes_expire hnone
      refine ih ?_ ?_ (hnext ▸ hids)
      · rw [hstore, Store.rows_applyCommit]
        exact hwrites h hP hw
      · rw [hstore]
        exact linked_of_writes h h rfl hids hw

/-- An action keeps a property of the rows if each of its commits does. An application that it
starts has a reference that was drawn for it. -/
theorem keeps_recordsOf {P : Rows → Prop} (hP : P d.store.rows) (h : d.store.Linked)
    (hids : d.store.nextVisitId + 1 ≠ 0) (a : Action)
    (hwrites : ∀ {e : Desk} {c}, e.store.Linked → P e.store.rows → e.Writes a c →
      (a.starts = true → ∃ y o, c = (e.start y o).records ∧
        d.references.Gave (d.perform a).references y.reference) →
      P (e.store.rows.applyCommit c)) : P (d.store.rows.applyCommit (d.recordsOf a)) := by
  rcases d.recordsOf_cases a with hnil | hw | rfl
  · rw [hnil]
    exact hP
  · by_cases hnil : d.recordsOf a = []
    · rw [hnil]
      exact hP
    · exact hwrites h hP hw (start_of_recordsOf hnil)
  · rw [recordsOf_expire]
    exact keeps_expiryCommits hP h hids (fun he hPe hw => hwrites he hPe hw nofun) _

/-- The rows take the records of the action. -/
def TakesRecords (d : Desk) (a : Action) : Prop :=
  (d.perform a).store.rows = d.store.rows.applyCommit (d.recordsOf a)

/-- Only a restart can fail to give the rows back, and it does so where every commit fits its length
field. -/
theorem along_takesRecords (h : d.Faithful) (hfits : .restart ∈ actions → d.Along Fits actions) :
    d.Along TakesRecords actions := by
  by_cases hrestart : .restart ∈ actions
  · have hall := hfits hrestart
    clear hfits hrestart
    induction actions generalizing d with
    | nil => trivial
    | cons a actions ih => exact ⟨h.rows_perform a, ih (h.perform hall.1) hall.2⟩
  · clear hfits h
    induction actions generalizing d with
    | nil => trivial
    | cons a actions ih =>
      rw [List.mem_cons, not_or] at hrestart
      exact ⟨rows_perform (Ne.symm hrestart.1), ih hrestart.2⟩

/-- Nothing is of a reference that is yet to be drawn. -/
def NothingAhead (d : Desk) : Prop :=
  ∀ i booking, d.references.drawn ≤ i →
    d.store.rows.Files booking (d.references.reference i) .blank

theorem NothingAhead.perform (hahead : d.NothingAhead) (h : d.store.Linked)
    (hids : d.store.nextVisitId + 1 ≠ 0) (hrepeats : Function.Injective d.references.reference)
    (htakes : d.TakesRecords a) : (d.perform a).NothingAhead := by
  have hlater := d.later_perform a
  intro i booking hi
  rw [htakes, hlater.reference]
  refine keeps_recordsOf (P := fun t => t.Files booking (d.references.reference i) .blank)
    (hahead i booking (Nat.le_trans hlater.drawn hi)) h hids a
    fun he hf hw hstart => blank_of_writes he hf hw fun hstarts => ?_
  obtain ⟨y, o, hrecords, j, -, hj, heq⟩ := hstart hstarts
  refine ⟨y, o, hrecords, fun hsame => ?_⟩
  have hij : j = i := hrepeats (heq.symm.trans hsame)
  omega

/-- The application was made under a reference that has been drawn, and the rows tell its life. -/
structure Lives (d : Desk) (x : Application) : Prop where
  drawn : ∃ i < d.references.drawn, x.reference = d.references.reference i
  life : d.store.rows.Life x

theorem Lives.perform (hlives : d.Lives x) (h : d.store.Linked)
    (hids : d.store.nextVisitId + 1 ≠ 0) (hrepeats : Function.Injective d.references.reference)
    (htakes : d.TakesRecords a) : (d.perform a).Lives x := by
  have hlater := d.later_perform a
  obtain ⟨i, hi, hx⟩ := hlives.drawn
  refine ⟨⟨i, Nat.lt_of_lt_of_le hi hlater.drawn, by rw [hx, hlater.reference]⟩, ?_⟩
  rw [htakes]
  refine keeps_recordsOf (P := fun t => t.Life x) hlives.life h hids a
    fun he hlife hw hstart => life_of_writes he hlife hw fun hstarts => ?_
  obtain ⟨y, o, hrecords, j, hj, -, heq⟩ := hstart hstarts
  refine ⟨y, o, hrecords, fun hsame => ?_⟩
  have hij : i = j := hrepeats (hx.symm.trans (hsame.symm.trans heq))
  omega

/-! ## New applications -/

/-- The application that the action makes, if it is granted. -/
def creates (d : Desk) : Action → Option Application
  | .reserve r => (d.reserve r).1.toOption
  | .change r => (d.change r).1.toOption
  | _ => none

theorem recordsOf_of_run {α : Type} {plan : Plan (Transition α)} {t : Transition α}
    {source : ReferenceSource} (hplan : d.plan? a = some (Transition.silent <$> plan))
    (hrun : plan.run.run d.references = (.ok t, source)) :
    d.recordsOf a = t.records ∧ (d.perform a).references = source := by
  have hgranted : d.granted (Transition.silent <$> plan) = some t.silent := by
    unfold granted
    rw [run_silent, hrun]
    rfl
  constructor
  · rw [recordsOf_of_granted hplan hgranted]
    rfl
  · rw [perform_of_plan hplan, references_transact, run_silent, hrun]

theorem run_of_answer {α : Type} {plan : Plan (Transition α)} {answer : α}
    (h : (d.transact plan).1.toOption = some answer) :
    ∃ t source, plan.run.run d.references = (.ok t, source) ∧ t.answer = answer := by
  rw [answer_transact] at h
  cases hrun : plan.run.run d.references with
  | mk result source =>
    rw [hrun] at h
    cases result with
    | error refusal => cases h
    | ok t => exact ⟨t, source, rfl, Option.some.inj h⟩

/-- An application that is made is started under a reference drawn for it. -/
theorem start_of_creates (h : d.creates a = some x) : ∃ o, d.recordsOf a = (d.start x o).records ∧
    x.completed = false ∧ d.references.Gave (d.perform a).references x.reference := by
  cases a with
  | reserve r =>
    obtain ⟨t, source, hrun, hanswer⟩ := run_of_answer h
    obtain ⟨hrecords, hreferences⟩ := recordsOf_of_run (a := .reserve r) rfl hrun
    obtain ⟨y, o, ht, hopen, hgave⟩ := start_of_planReserve hrun
    rw [ht] at hanswer hrecords
    cases hanswer
    exact ⟨o, hrecords, hopen, hreferences ▸ hgave⟩
  | change r =>
    obtain ⟨t, source, hrun, hanswer⟩ := run_of_answer h
    obtain ⟨hrecords, hreferences⟩ := recordsOf_of_run (a := .change r) rfl hrun
    obtain ⟨y, o, ht, hopen, hgave⟩ := start_of_planChange hrun
    rw [ht] at hanswer hrecords
    cases hanswer
    exact ⟨o, hrecords, hopen, hreferences ▸ hgave⟩
  | _ => cases h

/-- The life of a new application begins. -/
theorem lives_of_creates (hahead : d.NothingAhead) (htakes : d.TakesRecords a)
    (h : d.creates a = some x) : (d.perform a).Lives x := by
  obtain ⟨o, hrecords, hopen, i, hle, hlt, heq⟩ := start_of_creates h
  have hlater := d.later_perform a
  refine ⟨⟨i, hlt, by rw [heq, hlater.reference]⟩, ?_⟩
  rw [htakes, hrecords]
  refine life_of_start ?_ hopen o
  rw [heq]
  exact hahead i _ hle

/-! ## Runs -/

/-- The applications that a run makes. -/
def createdAlong : Desk → List Action → List Application
  | _, [] => []
  | d, a :: actions => (d.creates a).toList ++ (d.perform a).createdAlong actions

section

variable (hlinked : d.Throughout (fun d => d.store.Linked) actions)
  (hrange : d.Throughout InRange actions) (htakes : d.Along TakesRecords actions)
  (hrepeats : Function.Injective d.references.reference)

include hlinked hrange htakes hrepeats

theorem Lives.run (hlives : d.Lives x) : (d.run actions).Lives x := by
  induction actions generalizing d with
  | nil => exact hlives
  | cons a actions ih =>
    refine ih hlinked.2 hrange.2 htakes.2 ?_
      (hlives.perform hlinked.1 hrange.1.ids hrepeats htakes.1)
    rw [(d.later_perform a).reference]
    exact hrepeats

theorem NothingAhead.run (hahead : d.NothingAhead) : (d.run actions).NothingAhead := by
  induction actions generalizing d with
  | nil => exact hahead
  | cons a actions ih =>
    refine ih hlinked.2 hrange.2 htakes.2 ?_
      (hahead.perform hlinked.1 hrange.1.ids hrepeats htakes.1)
    rw [(d.later_perform a).reference]
    exact hrepeats

theorem lives_of_created (hahead : d.NothingAhead) (hx : x ∈ d.createdAlong actions) :
    (d.run actions).Lives x := by
  induction actions generalizing d with
  | nil => cases hx
  | cons a actions ih =>
    have hlater : Function.Injective (d.perform a).references.reference := by
      rw [(d.later_perform a).reference]
      exact hrepeats
    rcases List.mem_append.mp hx with hnow | hthen
    · have hcreates : d.creates a = some x := Option.mem_toList.mp hnow
      change ((d.perform a).run actions).Lives x
      exact Lives.run hlinked.2 hrange.2 htakes.2 hlater
        (lives_of_creates hahead htakes.1 hcreates)
    · exact ih hlinked.2 hrange.2 htakes.2 hlater
        (hahead.perform hlinked.1 hrange.1.ids hrepeats htakes.1) hthen

end

theorem nothingAhead_openOn (policy : BookingPolicy) (now : Moment)
    (prisoners : Std.ExtTreeMap String PrisonerContext) (references : ReferenceSource) :
    (openOn #[] policy now prisoners references).NothingAhead := by
  intro i booking _
  rw [store_openOn_nil]
  refine ⟨by simp [Store.rows, Store.empty, Dossier.blank], fun v => ?_, ?_⟩
  · refine iff_of_false (fun hv => not_hasVisit_empty v hv.1) fun hv => ?_
    cases hv
  · simp [Rows.trail, Store.rows, Store.empty, Dossier.blank]

/-- Along every run from an empty journal whose references do not come twice, the audit trail
recounts the life of every application that was made, and it says what is stored of it. A run with
restarts takes commits that fit their length fields. -/
theorem recounts_of_created (policy : BookingPolicy) (now : Moment)
    (prisoners : Std.ExtTreeMap String PrisonerContext) (references : ReferenceSource)
    (hrepeats : Function.Injective references.reference) (actions : List Action)
    (hrange : (openOn #[] policy now prisoners references).Throughout InRange actions)
    (hfits : .restart ∈ actions →
      (openOn #[] policy now prisoners references).Along Fits actions) :
    ∀ x ∈ (openOn #[] policy now prisoners references).createdAlong actions,
      ((openOn #[] policy now prisoners references).run actions).store.Recounts x := by
  intro x hx
  have hlinked := linked_throughout hrange
  have hfaithful : (openOn #[] policy now prisoners references).Faithful :=
    faithful_openOn [] rfl (by simp) policy now prisoners references
  have hlives := lives_of_created hlinked hrange (along_takesRecords hfaithful hfits) hrepeats
    (nothingAhead_openOn policy now prisoners references) hx
  exact Store.recounts_of_life hlinked.last.sound hlives.life

/-- Application aaa is made, and in the end its draft is cancelled. -/
theorem recounts_of_created_sample :
    Function.Injective Sample.growing.reference ∧
      Sample.grown.Throughout InRange Sample.upheaval ∧ Sample.grown.Along Fits Sample.upheaval ∧
      ∃ x ∈ Sample.grown.createdAlong Sample.upheaval, x.reference = "aaa" ∧
        (Sample.grown.run Sample.upheaval).store.historyOf x = [.reservedVisit, .cancelledVisit] ∧
        (Sample.grown.run Sample.upheaval).store.Shows x .withdrawn := by
  have hcreated : ((Sample.grown.run (Sample.actions.take 2)).creates
      (.reserve Sample.reservation)).map (fun x => (x.reference, x.bookingReference, x.kind)) =
      some ("aaa", "aa", .reserve) := by
    decide +kernel
  obtain ⟨x, hx, hnamed⟩ := Option.map_eq_some_iff.mp hcreated
  obtain ⟨hreference, hbooking, hkind⟩ : x.reference = "aaa" ∧ x.bookingReference = "aa" ∧
      x.kind = .reserve := by
    simpa using hnamed
  have hmem : x ∈ Sample.grown.createdAlong Sample.upheaval := by
    refine List.mem_append_right _ (List.mem_append_right _ (List.mem_append_left _ ?_))
    exact Option.mem_toList.mpr hx
  have hrecounts := recounts_of_created Sample.policy _ _ Sample.growing Sample.growing_injective
    Sample.upheaval Sample.inRange_upheaval (fun _ => Sample.fits_upheaval) x hmem
  have hfaithful : Sample.grown.Faithful := faithful_openOn [] rfl (by simp) Sample.policy _ _ _
  have htrail : (Sample.grown.run Sample.upheaval).store.rows.trail "aa" "aaa" =
      [.reservedVisit, .cancelledVisit] := by
    rw [hfaithful.rows_run Sample.fits_upheaval]
    decide +kernel
  have hhistory : (Sample.grown.run Sample.upheaval).store.historyOf x =
      [.reservedVisit, .cancelledVisit] := by
    rw [Store.historyOf_eq, hbooking, hreference]
    exact htrail
  refine ⟨Sample.growing_injective, Sample.inRange_upheaval, Sample.fits_upheaval, x, hmem,
    hreference, hhistory, hrecounts.shows 0 .withdrawn ?_⟩
  refine hhistory.trans ?_
  rw [hkind]
  rfl

end Desk

end PrisonVisits
