import PrisonVisits.Proofs.Durability

/-! # Requests take effect whole or not at all

A request that is refused has used up references and leaves everything else as it was. One that is
granted writes one journal entry at most, and the store, the feed and the list of delivered audits
take exactly the records of that entry. The visit id that a new draft takes is in those records too,
so the whole store follows from the commits, the counter included. -/

namespace PrisonVisits

/-! ## The whole store -/

namespace Store

/-- A visit saved under the next id takes that id. -/
theorem saveVisit_takeVisitId {s : Store} (hids : s.nextVisitId + 1 ≠ 0) {v : Visit}
    (hv : v.id = s.nextVisitId) : s.takeVisitId.2.saveVisit v = s.saveVisit v := by
  have hnext : max (s.nextVisitId + 1) (v.id + 1) = max s.nextVisitId (v.id + 1) := by
    rw [hv]
    simp only [max]
    rw [if_pos (UInt64.le_refl _), if_pos (UInt64.le_of_lt (lt_succ_of_ne_zero hids))]
  simp only [saveVisit, takeVisitId, hnext]
  cases s.visits[v.id]? <;> rfl

end Store

namespace Desk

variable {d : Desk}

theorem applyCommit_start (hids : d.store.nextVisitId + 1 ≠ 0) (a : Application)
    (o : SessionOccurrence) : d.store.takeVisitId.2.applyCommit (d.start a o).records =
      d.store.applyCommit (d.start a o).records := by
  have hsaved := Store.saveVisit_takeVisitId (s := d.store.apply (.applicationSaved a)) hids
    (v := a.draftVisit d.store.nextVisitId o d.now) rfl
  exact congrArg (fun s : Store => s.apply (a.audit a.kind.startAudit a.createdBy d.now)) hsaved

theorem store_expire (references : List Reference) :
    (references.foldl discardExpired d).store =
      d.store.applyCommit (d.expiryCommits references).flatten := by
  induction references generalizing d with
  | nil => rfl
  | cons reference references ih =>
    rw [List.foldl_cons, ih, discardExpired_store, expiryCommits, List.flatten_cons,
      Store.applyCommit_append]

/-- A granted request gives the store its records, behind the visit id it may take. -/
theorem store_of_granted {a : Action} {plan : Plan (Transition Unit)} {t : Transition Unit}
    (hplan : d.plan? a = some plan) (hgranted : d.granted plan = some t)
    (hids : d.store.nextVisitId + 1 ≠ 0) :
    (if t.takesVisitId then d.store.takeVisitId.2 else d.store).applyCommit t.records =
      d.store.applyCommit t.records := by
  cases grants_of_granted hplan hgranted with
  | nothing | of => rfl
  | start => exact applyCommit_start hids _ _

/-- What becomes of the store: it takes the records of an action's commits. -/
theorem store_perform {a : Action} (h : a ≠ .restart) (hids : d.store.nextVisitId + 1 ≠ 0) :
    (d.perform a).store = d.store.applyCommit (d.recordsOf a) := by
  cases hplan : d.plan? a with
  | some plan =>
    rw [perform_of_plan hplan]
    cases hgranted : d.granted plan with
    | none =>
      obtain ⟨references, hrefused⟩ := transact_of_refused hgranted
      rw [hrefused, recordsOf_of_refused hplan hgranted]
      rfl
    | some t =>
      obtain ⟨references, hdone⟩ := transact_of_granted hgranted
      rw [hdone, commit_store, store_of_granted hplan hgranted hids,
        recordsOf_of_granted hplan hgranted]
  | none =>
    by_cases hexpire : a = .expire
    · subst hexpire
      rw [recordsOf_expire]
      exact store_expire _
    · rw [recordsOf_of_none hplan hexpire]
      exact store_of_none hplan hexpire h

/-! ## Answers -/

/-- The answer to a request as far as it says whether the request was granted, and why not if it was
refused. -/
def answer? (d : Desk) : Action → Option (Except Refusal Unit)
  | .createGroup prisonCode name entries =>
    some ((d.createGroup prisonCode name entries).1.map fun _ => ())
  | .updateGroup reference name entries =>
    some ((d.updateGroup reference name entries).1.map fun _ => ())
  | .deleteGroup reference => some ((d.deleteGroup reference).1.map fun _ => ())
  | .createTemplate draft => some ((d.createTemplate draft).1.map fun _ => ())
  | .updateTemplate reference draft => some ((d.updateTemplate reference draft).1.map fun _ => ())
  | .setTemplateActive reference active =>
    some ((d.setTemplateActive reference active).1.map fun _ => ())
  | .deleteTemplate reference => some ((d.deleteTemplate reference).1.map fun _ => ())
  | .reserve request => some ((d.reserve request).1.map fun _ => ())
  | .change request => some ((d.change request).1.map fun _ => ())
  | .amend application amendment => some ((d.amend application amendment).1.map fun _ => ())
  | .book application actionedBy => some ((d.book application actionedBy).1.map fun _ => ())
  | .cancel bookingReference cancellation =>
    some ((d.cancel bookingReference cancellation).1.map fun _ => ())
  | .discard application actionedBy => some ((d.discard application actionedBy).1.map fun _ => ())
  | .expire | .compact | .restart | .setClock _ | .setPrisoner _ | .subscribe .. | .poll ..
  | .unsubscribe _ | .pruneFeed => none

theorem answer_silent {α : Type} (d : Desk) (plan : Plan (Transition α)) :
    (d.transact (Transition.silent <$> plan)).1 = (d.transact plan).1.map fun _ => () := by
  rw [answer_transact, answer_transact, run_silent]
  cases (plan.run.run d.references).1 <;> rfl

theorem answer?_eq (d : Desk) (a : Action) :
    d.answer? a = (d.plan? a).map fun plan => (d.transact plan).1 := by
  cases a
  all_goals first | rfl | exact congrArg some (answer_silent d _).symm

theorem answer_of_refused {plan : Plan (Transition Unit)} (h : d.granted plan = none) :
    ∃ refusal, (d.transact plan).1 = .error refusal := by
  rw [answer_transact]
  unfold granted at h
  cases hresult : (plan.run.run d.references).1 with
  | error refusal => exact ⟨refusal, rfl⟩
  | ok t =>
    rw [hresult] at h
    cases h

theorem answer_of_granted {plan : Plan (Transition Unit)} {t : Transition Unit}
    (h : d.granted plan = some t) : (d.transact plan).1 = .ok () := by
  rw [answer_transact]
  unfold granted at h
  cases hresult : (plan.run.run d.references).1 with
  | error refusal =>
    rw [hresult] at h
    cases h
  | ok t' => rfl

/-! ## One entry -/

/-- What becomes of a desk that takes a commit at once: the journal grows by the entry of the
commit, or not at all if it is empty, and a reader finds just the commit there. The store, the feed
and those who are told of audits take its records. -/
structure Committed (d after : Desk) (c : Commit) : Prop where
  bytes : after.journal.bytes.toList =
    d.journal.bytes.toList ++ if c = [] then [] else Journal.entry c
  replay : d.Faithful → Journal.legible c = true →
    after.journal.replay = d.journal.replay ++ if c = [] then [] else [c]
  store : after.store = d.store.applyCommit c ∨ after.store = d.store.takeVisitId.2.applyCommit c
  ids : d.store.nextVisitId + 1 ≠ 0 → after.store = d.store.applyCommit c
  delivered : after.delivered = d.delivered ++ c.filterMap Record.audit?
  feed : after.feed = (c.filterMap Record.audit?).foldl AuditFeed.send d.feed

theorem entries_whole (c : Commit) :
    Journal.entries ([c].filter fun c => !c.isEmpty) = if c = [] then [] else Journal.entry c := by
  cases c <;> simp [Journal.entries]

theorem replay_commit (hread : d.ReadToEnd)
    (hlegible : ∀ c ∈ d.journal.replay, Journal.legible c = true) {c : Commit}
    (hc : Journal.legible c = true) :
    (d.commit c).journal.replay = d.journal.replay ++ if c = [] then [] else [c] := by
  have hwhole : ([c].filter fun c => !c.isEmpty) = if c = [] then [] else [c] := by
    cases c <;> simp
  rw [← hwhole]
  refine replay_of_bytes ?_ fun x hx => ?_
  · rw [commit_bytes, Journal.entries_append, hread]
  · rcases List.mem_append.mp hx with hx | hx
    · exact hlegible x hx
    · rw [List.mem_singleton.mp (List.mem_of_mem_filter hx)]
      exact hc

theorem committed_of_granted {a : Action} {plan : Plan (Transition Unit)} {t : Transition Unit}
    (hplan : d.plan? a = some plan) (hgranted : d.granted plan = some t) :
    d.Committed (d.perform a) t.records := by
  obtain ⟨references, hdone⟩ := transact_of_granted hgranted
  rw [perform_of_plan hplan, hdone]
  refine ⟨?_, fun h hc => ?_, ?_, fun hids => ?_, ?_, ?_⟩
  · rw [commit_bytes, entries_whole]
  · exact replay_commit (d := { d with
        references
        store := if t.takesVisitId then d.store.takeVisitId.2 else d.store }) h.read h.legible hc
  · rw [commit_store]
    cases t.takesVisitId
    · exact .inl rfl
    · exact .inr rfl
  · rw [commit_store]
    exact store_of_granted hplan hgranted hids
  · cases t.records <;> simp [commit]
  · exact commit_feed _ _

/-- A refused request changes nothing but the references that are left. A granted one writes one
commit of its form, or none if it found nothing to do, and the desk takes that and nothing else. -/
theorem all_or_nothing (d : Desk) (a : Action) :
    (∀ refusal, d.answer? a = some (.error refusal) →
      ∃ references, d.perform a = { d with references }) ∧
    (d.answer? a = some (.ok ()) →
      ∃ c, d.Committed (d.perform a) c ∧ (d.Writes a c ∨ c = [] ∧ a.mayRest = true)) := by
  rw [answer?_eq]
  constructor
  · intro refusal hanswer
    obtain ⟨plan, hplan, hanswer⟩ := Option.map_eq_some_iff.mp hanswer
    rw [perform_of_plan hplan]
    cases hgranted : d.granted plan with
    | none => exact transact_of_refused hgranted
    | some t =>
      rw [answer_of_granted hgranted] at hanswer
      cases hanswer
  · intro hanswer
    obtain ⟨plan, hplan, hanswer⟩ := Option.map_eq_some_iff.mp hanswer
    cases hgranted : d.granted plan with
    | none =>
      obtain ⟨refusal, hrefused⟩ := answer_of_refused hgranted
      cases hrefused.symm.trans hanswer
    | some t =>
      refine ⟨t.records, committed_of_granted hplan hgranted, ?_⟩
      cases grants_of_granted hplan hgranted with
      | nothing answer rests => exact .inr ⟨rfl, rests⟩
      | of answer writes => exact .inl writes
      | start answer writes => exact .inl writes

end Desk

namespace Sample

/-- A source that gives the same reference again and again leaves one group and no second one. -/
def stuck : Desk :=
  (Desk.openOn #[] policy desk.now ∅ ⟨fun _ => "a", 0⟩).run
    [.createGroup "HEI" "first" (.incentives [])]

end Sample

theorem Desk.all_or_nothing_sample :
    (∃ references, Sample.stuck.perform (.createGroup "HEI" "second" (.incentives [])) =
      { Sample.stuck with references }) ∧
    ∃ c, (Sample.desk.run Sample.actions).Committed
        ((Sample.desk.run Sample.actions).perform (.book "c" "clerk")) c ∧
      ((Sample.desk.run Sample.actions).Writes (.book "c" "clerk") c ∨
        c = [] ∧ (Action.book "c" "clerk").mayRest = true) :=
  ⟨(all_or_nothing Sample.stuck _).1 (.limitExceeded .noFreeReference) (by decide +kernel),
    (all_or_nothing (Sample.desk.run Sample.actions) _).2 (by decide +kernel)⟩

end PrisonVisits
