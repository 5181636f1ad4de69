import PrisonVisits.Proofs.CommittedLinks
import PrisonVisits.Proofs.Framing

/-! # What an action writes

A request is a plan, and a plan that is not refused becomes one commit, if it has records at all.
The sweep of expired applications writes a commit for each. The journal and the rows follow from
these commits; a compaction puts a snapshot in the place of the journal, a restart reads it again,
and nothing else touches either. -/

namespace PrisonVisits

/-- The transition without its answer. -/
def Transition.silent {α : Type} (t : Transition α) : Transition Unit :=
  ⟨(), t.records, t.takesVisitId⟩

namespace Desk

/-- The plan of an action that is a request. -/
def plan? (d : Desk) : Action → Option (Plan (Transition Unit))
  | .createGroup prisonCode name entries =>
    some (Transition.silent <$> d.planCreateGroup prisonCode name entries)
  | .updateGroup reference name entries =>
    some (Transition.silent <$> liftM (d.planUpdateGroup reference name entries))
  | .deleteGroup reference => some (Transition.silent <$> liftM (d.planDeleteGroup reference))
  | .createTemplate draft => some (Transition.silent <$> d.planCreateTemplate draft)
  | .updateTemplate reference draft =>
    some (Transition.silent <$> liftM (d.planUpdateTemplate reference draft))
  | .setTemplateActive reference active =>
    some (Transition.silent <$> liftM (d.planSetActive reference active))
  | .deleteTemplate reference => some (Transition.silent <$> liftM (d.planDeleteTemplate reference))
  | .reserve request => some (Transition.silent <$> d.planReserve request)
  | .change request => some (Transition.silent <$> d.planChange request)
  | .amend application amendment =>
    some (Transition.silent <$> liftM (d.planAmend application amendment))
  | .book application actionedBy =>
    some (Transition.silent <$> liftM (d.planBook application actionedBy))
  | .cancel bookingReference cancellation =>
    some (Transition.silent <$> liftM (d.planCancel bookingReference cancellation))
  | .discard application actionedBy =>
    some (Transition.silent <$> liftM (d.planDiscard application actionedBy))
  | .expire | .compact | .restart | .setClock _ | .setPrisoner _ | .subscribe .. | .poll ..
  | .unsubscribe _ | .pruneFeed => none

/-- What a request comes to at the desk, unless it is refused. -/
def granted (d : Desk) (plan : Plan (Transition Unit)) : Option (Transition Unit) :=
  (plan.run.run d.references).1.toOption

/-- The action is not a request that is refused. -/
def Accepts (d : Desk) (a : Action) : Prop :=
  ∀ plan, d.plan? a = some plan → (d.granted plan).isSome = true

/-- The records that discard expired applications, one commit after the other. -/
def expiryCommits : Desk → List Reference → List Commit
  | _, [] => []
  | d, reference :: references =>
    d.expiryRecords reference :: expiryCommits (d.discardExpired reference) references

/-- The commits that an action appends to the journal. -/
def commitsOf (d : Desk) (a : Action) : List Commit :=
  let commits : List Commit := match a with
    | .expire => d.expiryCommits (d.expiredApplications.map (·.reference))
    | a => ((d.plan? a).bind d.granted).toList.map (·.records)
  commits.filter fun commit => !commit.isEmpty

/-- The records of an action's commits, in the order in which they take effect. -/
def recordsOf (d : Desk) (a : Action) : List Record := (d.commitsOf a).flatten

/-! ## Plans -/

theorem run_silent {α : Type} (plan : Plan (Transition α)) (source : ReferenceSource) :
    (Transition.silent <$> plan).run.run source =
      ((plan.run.run source).1.map Transition.silent, (plan.run.run source).2) := by
  have hmap : Transition.silent <$> plan = plan >>= fun t => pure t.silent :=
    (bind_pure_comp ..).symm
  rw [hmap, Plan.run_bind]
  split <;> (next h => rw [h]; rfl)

theorem transact_silent {α : Type} (d : Desk) (plan : Plan (Transition α)) :
    (d.transact (Transition.silent <$> plan)).2 = (d.transact plan).2 := by
  unfold transact
  rw [run_silent]
  obtain ⟨result, references⟩ := plan.run.run d.references
  cases result <;> rfl

theorem answer_transact {α : Type} (d : Desk) (plan : Plan (Transition α)) :
    (d.transact plan).1 = (plan.run.run d.references).1.map (·.answer) := by
  unfold transact
  obtain ⟨_ | t, source⟩ := plan.run.run d.references <;> rfl

theorem perform_of_plan {d : Desk} {a : Action} {plan : Plan (Transition Unit)}
    (h : d.plan? a = some plan) : d.perform a = (d.transact plan).2 := by
  cases a <;> cases h <;> exact (transact_silent d _).symm

theorem yields_of_silent {α : Type} {plan : Plan (Transition α)} {d : Desk} {t : Transition Unit}
    (h : d.granted (Transition.silent <$> plan) = some t) :
    ∃ t', plan.Yields t' ∧ t'.silent = t := by
  unfold granted at h
  rw [run_silent] at h
  cases hrun : plan.run.run d.references with
  | mk result references =>
    rw [hrun] at h
    cases result with
    | error refusal => cases h
    | ok t' => exact ⟨t', ⟨_, _, hrun⟩, Option.some.inj h⟩

theorem Grants.silent {d : Desk} {a : Action} {α : Type} {t : Transition α} (h : d.Grants a t) :
    d.Grants a t.silent := by
  cases h with
  | nothing answer rests => exact .nothing () rests
  | of answer writes => exact .of () writes
  | start answer writes => exact .start () writes

/-- What a request comes to has the request's form. -/
theorem grants_of_granted {d : Desk} {a : Action} {plan : Plan (Transition Unit)}
    {t : Transition Unit} (hplan : d.plan? a = some plan) (h : d.granted plan = some t) :
    d.Grants a t := by
  cases a <;> cases hplan <;> obtain ⟨t, hyields, rfl⟩ := yields_of_silent h
  case createGroup => exact (grants_createGroup hyields).silent
  case updateGroup => exact (grants_updateGroup hyields.lift).silent
  case deleteGroup => exact (grants_deleteGroup hyields.lift).silent
  case createTemplate => exact (grants_createTemplate hyields).silent
  case updateTemplate => exact (grants_updateTemplate hyields.lift).silent
  case setTemplateActive => exact (grants_setTemplateActive hyields.lift).silent
  case deleteTemplate => exact (grants_deleteTemplate hyields.lift).silent
  case reserve => exact (grants_reserve hyields).silent
  case change => exact (grants_change hyields).silent
  case amend => exact (grants_amend hyields.lift).silent
  case book => exact (grants_book hyields.lift).silent
  case cancel => exact (grants_cancel hyields.lift).silent
  case discard => exact (grants_discard hyields.lift).silent

theorem transact_of_refused {d : Desk} {plan : Plan (Transition Unit)} (h : d.granted plan = none) :
    ∃ references, (d.transact plan).2 = { d with references } := by
  unfold granted at h
  unfold transact
  cases hrun : plan.run.run d.references with
  | mk result references =>
    rw [hrun] at h
    cases result with
    | error refusal => exact ⟨references, rfl⟩
    | ok t => cases h

theorem transact_of_granted {d : Desk} {plan : Plan (Transition Unit)} {t : Transition Unit}
    (h : d.granted plan = some t) : ∃ references, (d.transact plan).2 =
      { d with
        references
        store := if t.takesVisitId then d.store.takeVisitId.2 else d.store }.commit t.records := by
  unfold granted at h
  unfold transact
  cases hrun : plan.run.run d.references with
  | mk result references =>
    rw [hrun] at h
    cases result with
    | error refusal => cases h
    | ok t' =>
      cases h
      exact ⟨references, rfl⟩

/-! ## Committing -/

variable (d : Desk)

theorem commit_nil : d.commit [] = d := rfl

theorem commit_store (c : Commit) : (d.commit c).store = d.store.applyCommit c := by
  cases c <;> rfl

theorem commit_policy (c : Commit) : (d.commit c).policy = d.policy := by
  cases c <;> rfl

theorem commit_feed (c : Commit) :
    (d.commit c).feed = (c.filterMap Record.audit?).foldl AuditFeed.send d.feed := by
  cases c <;> rfl

theorem commit_bytes (c : Commit) : (d.commit c).journal.bytes.toList =
    d.journal.bytes.toList ++ Journal.entries ([c].filter fun c => !c.isEmpty) := by
  cases c with
  | nil => simp [commit_nil, Journal.entries]
  | cons r c => simp [commit, Journal.append, Journal.entries]

theorem discardExpired_store (reference : Reference) :
    (d.discardExpired reference).store = d.store.applyCommit (d.expiryRecords reference) :=
  commit_store d _

/-- Discarded applications leave no new visits. -/
theorem no_visit_expiryRecords (reference : Reference) (v : Visit) :
    .visitSaved v ∉ d.expiryRecords reference := by
  intro hv
  unfold expiryRecords at hv
  split at hv
  · split at hv
    · cases hv
    · exact no_visit_discardRecords _ _ _ _ v hv
  · cases hv

theorem no_visit_expiryCommits (references : List Reference) (v : Visit) :
    .visitSaved v ∉ (d.expiryCommits references).flatten := by
  induction references generalizing d with
  | nil => exact List.not_mem_nil
  | cons reference references ih =>
    rw [expiryCommits, List.flatten_cons, List.mem_append, not_or]
    exact ⟨no_visit_expiryRecords d reference v, ih _⟩

variable {d}

theorem commitsOf_expire :
    d.commitsOf .expire = (d.expiryCommits (d.expiredApplications.map (·.reference))).filter
      fun commit => !commit.isEmpty := rfl

theorem commitsOf_of_plan {a : Action} {plan : Plan (Transition Unit)} (h : d.plan? a = some plan) :
    d.commitsOf a = ((d.granted plan).toList.map (·.records)).filter fun c => !c.isEmpty := by
  cases a <;> cases h <;> rfl

theorem commitsOf_of_none {a : Action} (h : d.plan? a = none) (ha : a ≠ .expire) :
    d.commitsOf a = [] := by
  cases a <;> first | rfl | exact absurd rfl ha | cases h

theorem bytes_expire (references : List Reference) :
    (references.foldl discardExpired d).journal.bytes.toList = d.journal.bytes.toList ++
      Journal.entries ((d.expiryCommits references).filter fun c => !c.isEmpty) := by
  induction references generalizing d with
  | nil => simp [expiryCommits, Journal.entries]
  | cons reference references ih =>
    rw [List.foldl_cons, ih, discardExpired, commit_bytes, List.append_assoc,
      ← Journal.entries_append, ← List.filter_append]
    rfl

theorem rows_expire (references : List Reference) :
    (references.foldl discardExpired d).store.rows =
      d.store.rows.applyCommit (d.expiryCommits references).flatten := by
  induction references generalizing d with
  | nil => rfl
  | cons reference references ih =>
    rw [List.foldl_cons, ih, discardExpired_store, Store.rows_applyCommit, expiryCommits,
      List.flatten_cons, Rows.applyCommit_append]

theorem restart_bytes : (d.restart .none).journal.bytes = d.journal.bytes := by
  simp [restart, Journal.ofBytes, Journal.damage, Damage.apply, Damage.none]

theorem store_restart : (d.restart .none).store = .ofCommits d.journal.replay := by
  change Store.ofCommits (Journal.commits (d.restart .none).journal.bytes.toList) = _
  rw [restart_bytes]
  rfl

/-- What becomes of the journal: an action appends the entries of its commits. -/
theorem bytes_perform {a : Action} (h : a ≠ .compact) : (d.perform a).journal.bytes.toList =
    d.journal.bytes.toList ++ Journal.entries (d.commitsOf a) := by
  cases hplan : d.plan? a with
  | some plan =>
    rw [perform_of_plan hplan, commitsOf_of_plan hplan]
    cases hgranted : d.granted plan with
    | none =>
      obtain ⟨references, hrefused⟩ := transact_of_refused hgranted
      rw [hrefused]
      simp [Journal.entries]
    | some t =>
      obtain ⟨references, hdone⟩ := transact_of_granted hgranted
      rw [hdone, commit_bytes]
      rfl
  | none =>
    by_cases hexpire : a = .expire
    · subst hexpire
      rw [commitsOf_expire]
      exact bytes_expire _
    · rw [commitsOf_of_none hplan hexpire]
      have hsame : (d.perform a).journal.bytes = d.journal.bytes := by
        cases a
        case restart => exact restart_bytes
        case poll receiver atMost =>
          unfold perform
          dsimp only
          split <;> rfl
        all_goals first | rfl | exact absurd rfl h | exact absurd rfl hexpire | cases hplan
      rw [hsame, Journal.entries, List.flatMap_nil, List.append_nil]

/-- What is no request and neither sweeps nor restarts leaves the store alone. -/
theorem store_of_none {a : Action} (hplan : d.plan? a = none) (hexpire : a ≠ .expire)
    (hrestart : a ≠ .restart) : (d.perform a).store = d.store := by
  cases a
  case compact =>
    change d.compact.2.store = d.store
    unfold compact
    split <;> rfl
  case poll receiver atMost =>
    unfold perform
    dsimp only
    split <;> rfl
  all_goals first | rfl | exact absurd rfl hexpire | exact absurd rfl hrestart | cases hplan

/-! ## The records of an action -/

theorem recordsOf_expire : d.recordsOf .expire =
    (d.expiryCommits (d.expiredApplications.map (·.reference))).flatten := by
  rw [recordsOf, commitsOf_expire, List.flatten_filter_not_isEmpty]

theorem recordsOf_of_none {a : Action} (h : d.plan? a = none) (ha : a ≠ .expire) :
    d.recordsOf a = [] := by
  rw [recordsOf, commitsOf_of_none h ha, List.flatten_nil]

theorem recordsOf_of_refused {a : Action} {plan : Plan (Transition Unit)}
    (hplan : d.plan? a = some plan) (hgranted : d.granted plan = none) : d.recordsOf a = [] := by
  rw [recordsOf, commitsOf_of_plan hplan, List.flatten_filter_not_isEmpty, hgranted]
  rfl

theorem recordsOf_of_granted {a : Action} {plan : Plan (Transition Unit)} {t : Transition Unit}
    (hplan : d.plan? a = some plan) (hgranted : d.granted plan = some t) :
    d.recordsOf a = t.records := by
  rw [recordsOf, commitsOf_of_plan hplan, List.flatten_filter_not_isEmpty, hgranted,
    Option.toList_some, List.map_singleton, List.flatten_singleton]

/-- An action writes nothing, or one commit of its form, or it is a sweep. -/
theorem recordsOf_cases (d : Desk) (a : Action) :
    d.recordsOf a = [] ∨ d.Writes a (d.recordsOf a) ∨ a = .expire := by
  cases hplan : d.plan? a with
  | none =>
    by_cases hexpire : a = .expire
    · exact .inr (.inr hexpire)
    · exact .inl (recordsOf_of_none hplan hexpire)
  | some plan =>
    cases hgranted : d.granted plan with
    | none => exact .inl (recordsOf_of_refused hplan hgranted)
    | some t =>
      rw [recordsOf_of_granted hplan hgranted]
      cases grants_of_granted hplan hgranted with
      | nothing => exact .inl rfl
      | of answer writes => exact .inr (.inl writes)
      | start answer writes => exact .inr (.inl writes)

/-- What becomes of the rows: they take the records of an action's commits. -/
theorem rows_perform {a : Action} (h : a ≠ .restart) : (d.perform a).store.rows =
    d.store.rows.applyCommit (d.recordsOf a) := by
  cases hplan : d.plan? a with
  | some plan =>
    rw [perform_of_plan hplan]
    cases hgranted : d.granted plan with
    | none =>
      obtain ⟨references, hrefused⟩ := transact_of_refused hgranted
      rw [hrefused, recordsOf_of_refused hplan hgranted]
      rfl
    | some t =>
      obtain ⟨references, hdone⟩ := transact_of_granted hgranted
      rw [hdone, commit_store, Store.rows_applyCommit, recordsOf_of_granted hplan hgranted]
      cases t.takesVisitId <;> rfl
  | none =>
    by_cases hexpire : a = .expire
    · subst hexpire
      rw [recordsOf_expire]
      exact rows_expire _
    · rw [recordsOf_of_none hplan hexpire, store_of_none hplan hexpire h, Rows.applyCommit_nil]

/-- An accepted request that has something to do writes one commit of its form. -/
theorem writes_of_accepts {a : Action} {plan : Plan (Transition Unit)}
    (hplan : d.plan? a = some plan) (haccepts : d.Accepts a) (hrest : a.mayRest = false) :
    d.Writes a (d.recordsOf a) := by
  obtain ⟨t, hgranted⟩ := Option.isSome_iff_exists.mp (haccepts plan hplan)
  rw [recordsOf_of_granted hplan hgranted]
  cases grants_of_granted hplan hgranted with
  | nothing answer rests =>
    rw [hrest] at rests
    cases rests
  | of answer writes => exact writes
  | start answer writes => exact writes

/-- The policy of a desk stays. -/
theorem policy_perform (d : Desk) (a : Action) : (d.perform a).policy = d.policy := by
  cases hplan : d.plan? a with
  | some plan =>
    rw [perform_of_plan hplan]
    cases hgranted : d.granted plan with
    | none =>
      obtain ⟨references, hrefused⟩ := transact_of_refused hgranted
      rw [hrefused]
    | some t =>
      obtain ⟨references, hdone⟩ := transact_of_granted hgranted
      rw [hdone, commit_policy]
  | none =>
    cases a
    case expire =>
      suffices h : ∀ references : List Reference,
          (references.foldl discardExpired d).policy = d.policy from h _
      intro references
      induction references generalizing d with
      | nil => rfl
      | cons reference references ih =>
        rw [List.foldl_cons, ih (d.discardExpired reference) (by rfl)]
        exact commit_policy d _
    case compact =>
      change d.compact.2.policy = d.policy
      unfold compact
      split <;> rfl
    case poll receiver atMost =>
      unfold perform
      dsimp only
      split <;> rfl
    all_goals first | rfl | cases hplan

theorem policy_run (d : Desk) (actions : List Action) : (d.run actions).policy = d.policy := by
  induction actions generalizing d with
  | nil => rfl
  | cons a actions ih => exact (ih (d.perform a)).trans (policy_perform d a)

end Desk

end PrisonVisits
