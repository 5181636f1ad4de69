import PrisonVisits.Proofs.Commits

/-! # References are drawn once

Actions only ever move the source of references forward, and a new application has a reference that
was drawn for it. If the source never repeats itself, that reference is not the one of an earlier
application. -/

namespace PrisonVisits

namespace ReferenceSource

/-- The source after some more references have been drawn from it. -/
structure Later (source source' : ReferenceSource) : Prop where
  reference : source'.reference = source.reference
  drawn : source.drawn ≤ source'.drawn

/-- The reference is among those that were drawn between two states of the source. -/
def Gave (source source' : ReferenceSource) (reference : Reference) : Prop :=
  ∃ i, source.drawn ≤ i ∧ i < source'.drawn ∧ reference = source.reference i

variable {first second third : ReferenceSource}

theorem Later.refl (source : ReferenceSource) : source.Later source := ⟨rfl, Nat.le_refl _⟩

theorem Later.trans (h : first.Later second) (h' : second.Later third) : first.Later third :=
  ⟨h'.reference.trans h.reference, Nat.le_trans h.drawn h'.drawn⟩

theorem later_draw (source : ReferenceSource) : source.Later source.draw.2 :=
  ⟨rfl, Nat.le_succ _⟩

theorem Gave.earlier {reference : Reference} (h : first.Later second)
    (hgave : second.Gave third reference) : first.Gave third reference := by
  obtain ⟨i, hle, hlt, heq⟩ := hgave
  exact ⟨i, Nat.le_trans h.drawn hle, hlt, by rw [heq, h.reference]⟩

end ReferenceSource

open ReferenceSource

namespace Store

theorem later_drawUnused (s : Store) (attempts : Nat) (source : ReferenceSource) :
    source.Later (s.drawUnused attempts source).2 := by
  induction attempts generalizing source with
  | zero => exact .refl _
  | succ attempts ih =>
    unfold drawUnused
    dsimp only
    split
    · exact (later_draw source).trans (ih _)
    · exact later_draw source

/-- The source gives its reference number i, the first one ahead that no row has. -/
structure Picks (s : Store) (source source' : ReferenceSource) (i : Nat) : Prop where
  ahead : source.drawn ≤ i
  unused : s.containsReference (source.reference i) = false
  passed : ∀ k, source.drawn ≤ k → k < i → s.containsReference (source.reference k) = true
  rest : source' = { source with drawn := i + 1 }

theorem Picks.gave {s : Store} {source source' : ReferenceSource} {i : Nat}
    (h : s.Picks source source' i) : source.Gave source' (source.reference i) := by
  rw [h.rest]
  exact ⟨i, h.ahead, Nat.lt_succ_self i, rfl⟩

theorem picks_of_drawUnused {s : Store} {attempts : Nat} {source source' : ReferenceSource}
    {reference : Reference} (h : s.drawUnused attempts source = (some reference, source')) :
    ∃ i, s.Picks source source' i ∧ reference = source.reference i := by
  induction attempts generalizing source with
  | zero => cases h
  | succ attempts ih =>
    unfold drawUnused at h
    dsimp only at h
    split at h
    · next hused =>
      obtain ⟨i, hpicks, hreference⟩ := ih h
      refine ⟨i, ⟨Nat.le_of_succ_le hpicks.ahead, hpicks.unused, fun k hk hki => ?_, hpicks.rest⟩,
        hreference⟩
      rcases Nat.eq_or_lt_of_le hk with rfl | hlt
      · exact hused
      · exact hpicks.passed k hlt hki
    · next hunused =>
      cases h
      refine ⟨source.drawn, ⟨Nat.le_refl _, eq_false_of_ne_true hunused, fun k hk hki => ?_, rfl⟩,
        rfl⟩
      omega

end Store

/-! ## Plans -/

namespace Plan

variable {α β : Type}

/-- Whatever comes of the plan, it leaves a later state of the source. -/
def Advances (p : Plan α) : Prop := ∀ source : ReferenceSource, source.Later (p.run.run source).2

theorem run_bind_eq_ok {p : Plan α} {f : α → Plan β} {source source' : ReferenceSource} {b : β} :
    (p >>= f).run.run source = (.ok b, source') ↔
      ∃ a mid, p.run.run source = (.ok a, mid) ∧ (f a).run.run mid = (.ok b, source') := by
  rw [run_bind]
  generalize p.run.run source = result
  obtain ⟨_ | a, mid⟩ := result
  · exact ⟨nofun, fun ⟨_, _, hp, _⟩ => by cases hp⟩
  · exact ⟨fun h => ⟨a, mid, rfl, h⟩, fun ⟨_, _, hp, h⟩ => by cases hp; exact h⟩

theorem Advances.bind {p : Plan α} {f : α → Plan β} (hp : p.Advances)
    (hf : ∀ a, (f a).Advances) : (p >>= f).Advances := by
  intro source
  have hfirst := hp source
  rw [run_bind]
  split
  · next a mid hrun =>
    rw [hrun] at hfirst
    exact hfirst.trans (hf a mid)
  · next e mid hrun =>
    rw [hrun] at hfirst
    exact hfirst

theorem Advances.pure (a : α) : (pure a : Plan α).Advances := fun source => .refl source

theorem run_lift (x : Except Refusal α) (source : ReferenceSource) :
    (liftM x : Plan α).run.run source = (x, source) := by
  cases x <;> rfl

theorem run_lift_eq_ok {x : Except Refusal α} {source source' : ReferenceSource} {a : α}
    (h : (liftM x : Plan α).run.run source = (.ok a, source')) : x = .ok a ∧ source = source' := by
  rw [run_lift] at h
  exact Prod.mk.inj h

theorem Advances.lift (x : Except Refusal α) : (liftM x : Plan α).Advances := by
  intro source
  rw [run_lift]
  exact .refl source

end Plan

open Plan

namespace Store

theorem run_freshReference_eq (s : Store) (source : ReferenceSource) :
    s.freshReference.run.run source = match s.drawUnused Limits.maxReferenceAttempts source with
      | (some reference, source) => (.ok reference, source)
      | (none, source) => (.error (.limitExceeded .noFreeReference), source) := rfl

theorem advances_freshReference (s : Store) : s.freshReference.Advances := by
  intro source
  have hlater := s.later_drawUnused Limits.maxReferenceAttempts source
  rw [run_freshReference_eq]
  split <;> (next hdraw => rw [hdraw] at hlater; exact hlater)

theorem picks_of_freshReference {s : Store} {source source' : ReferenceSource}
    {reference : Reference} (h : s.freshReference.run.run source = (.ok reference, source')) :
    ∃ i, s.Picks source source' i ∧ reference = source.reference i := by
  rw [run_freshReference_eq] at h
  split at h
  · next hdraw =>
    cases h
    exact picks_of_drawUnused hdraw
  · cases h

theorem gave_of_freshReference {s : Store} {source source' : ReferenceSource}
    {reference : Reference} (h : s.freshReference.run.run source = (.ok reference, source')) :
    source.Gave source' reference := by
  obtain ⟨i, hpicks, rfl⟩ := picks_of_freshReference h
  exact hpicks.gave

end Store

namespace Desk

variable {d : Desk}

theorem advances_bookingFor (d : Desk) (r : ReserveRequest) : (d.bookingFor r).Advances := by
  unfold bookingFor
  split
  · exact d.store.advances_freshReference
  · exact .bind (.lift _) fun _ => .bind (.lift _) fun _ => .pure _

theorem advances_of_plan {a : Action} {plan : Plan (Transition Unit)} (h : d.plan? a = some plan) :
    plan.Advances := by
  have hsilent : ∀ {α : Type} {p : Plan (Transition α)}, p.Advances →
      (Transition.silent <$> p).Advances := by
    intro α p hp source
    rw [run_silent]
    exact hp source
  cases a <;> cases h <;> refine hsilent ?_
  case createGroup =>
    exact .bind (.lift _) fun _ => .bind (.lift _) fun _ =>
      .bind d.store.advances_freshReference fun _ => .pure _
  case createTemplate =>
    exact .bind (.lift _) fun _ => .bind (.lift _) fun _ =>
      .bind d.store.advances_freshReference fun _ => .bind (.lift _) fun _ => .pure _
  case reserve =>
    exact .bind (.lift _) fun _ => .bind (d.advances_bookingFor _) fun _ => .bind (.lift _) fun _ =>
      .bind d.store.advances_freshReference fun _ => .pure _
  case change =>
    exact .bind (.lift _) fun _ => .bind (.lift _) fun _ => .bind (.lift _) fun _ =>
      .bind d.store.advances_freshReference fun _ => .pure _
  all_goals exact .lift _

theorem references_transact (d : Desk) (plan : Plan (Transition Unit)) :
    (d.transact plan).2.references = (plan.run.run d.references).2 := by
  unfold transact
  obtain ⟨result, references⟩ := plan.run.run d.references
  cases result with
  | error => rfl
  | ok t =>
    change ({ d with references, store := _ }.commit t.records).references = _
    cases t.records <;> rfl

theorem references_expire (references : List Reference) :
    (references.foldl discardExpired d).references = d.references := by
  induction references generalizing d with
  | nil => rfl
  | cons reference references ih =>
    rw [List.foldl_cons, ih, discardExpired]
    cases d.expiryRecords reference <;> rfl

/-- Actions move the source forward. -/
theorem later_perform (d : Desk) (a : Action) : d.references.Later (d.perform a).references := by
  cases hplan : d.plan? a with
  | some plan =>
    rw [perform_of_plan hplan, references_transact]
    exact advances_of_plan hplan d.references
  | none =>
    have hsame : (d.perform a).references = d.references := by
      cases a
      case expire => exact references_expire _
      case compact =>
        change d.compact.2.references = d.references
        unfold compact
        split <;> rfl
      case poll receiver atMost =>
        unfold perform
        dsimp only
        split <;> rfl
      all_goals first | rfl | cases hplan
    rw [hsame]
    exact .refl _

theorem later_run (d : Desk) (actions : List Action) :
    d.references.Later (d.run actions).references := by
  induction actions generalizing d with
  | nil => exact .refl _
  | cons a actions ih => exact (d.later_perform a).trans (ih _)

/-! ## New applications -/

theorem start_of_planReserve {r : ReserveRequest} {source source' : ReferenceSource}
    {t : Transition Application} (h : (d.planReserve r).run.run source = (.ok t, source')) :
    ∃ a o, t = d.start a o ∧ a.completed = false ∧ source.Gave source' a.reference := by
  unfold planReserve at h
  obtain ⟨_, _, hcounts, h⟩ := run_bind_eq_ok.mp h
  obtain ⟨bookingReference, mid, hbooking, h⟩ := run_bind_eq_ok.mp h
  obtain ⟨o, _, hheld, h⟩ := run_bind_eq_ok.mp h
  obtain ⟨reference, _, hfresh, h⟩ := run_bind_eq_ok.mp h
  cases h
  obtain ⟨-, rfl⟩ := run_lift_eq_ok hcounts
  obtain ⟨-, rfl⟩ := run_lift_eq_ok hheld
  have hlater := d.advances_bookingFor r source
  rw [hbooking] at hlater
  exact ⟨_, _, rfl, rfl, (Store.gave_of_freshReference hfresh).earlier hlater⟩

theorem start_of_planChange {r : ChangeRequest} {source source' : ReferenceSource}
    {t : Transition Application} (h : (d.planChange r).run.run source = (.ok t, source')) :
    ∃ a o, t = d.start a o ∧ a.completed = false ∧ source.Gave source' a.reference := by
  unfold planChange at h
  obtain ⟨_, _, hcounts, h⟩ := run_bind_eq_ok.mp h
  obtain ⟨booked, _, hbooked, h⟩ := run_bind_eq_ok.mp h
  obtain ⟨o, _, hheld, h⟩ := run_bind_eq_ok.mp h
  obtain ⟨reference, _, hfresh, h⟩ := run_bind_eq_ok.mp h
  cases h
  obtain ⟨-, rfl⟩ := run_lift_eq_ok hcounts
  obtain ⟨-, rfl⟩ := run_lift_eq_ok hbooked
  obtain ⟨-, rfl⟩ := run_lift_eq_ok hheld
  exact ⟨_, _, rfl, rfl, Store.gave_of_freshReference hfresh⟩

theorem run_of_granted {α : Type} {plan : Plan (Transition α)} {t : Transition Unit}
    (h : d.granted (Transition.silent <$> plan) = some t) : ∃ t', plan.run.run d.references =
      (.ok t', ((Transition.silent <$> plan).run.run d.references).2) ∧ t'.silent = t := by
  unfold granted at h
  rw [run_silent] at h ⊢
  cases hrun : plan.run.run d.references with
  | mk result references =>
    rw [hrun] at h
    cases result with
    | error refusal => cases h
    | ok t' => exact ⟨t', rfl, Option.some.inj h⟩

/-- A granted reservation or change starts an application under a reference drawn for it. -/
theorem start_of_granted {a : Action} {plan : Plan (Transition Unit)} {t : Transition Unit}
    (hplan : d.plan? a = some plan) (hgranted : d.granted plan = some t) (ha : a.starts = true) :
    ∃ x o, t.records = (d.start x o).records ∧
      d.references.Gave (d.perform a).references x.reference := by
  rw [perform_of_plan hplan, references_transact]
  cases a <;> cases ha <;> cases hplan <;> obtain ⟨t', hrun, rfl⟩ := run_of_granted hgranted
  case reserve =>
    obtain ⟨x, o, rfl, -, hgave⟩ := start_of_planReserve hrun
    exact ⟨x, o, rfl, hgave⟩
  case change =>
    obtain ⟨x, o, rfl, -, hgave⟩ := start_of_planChange hrun
    exact ⟨x, o, rfl, hgave⟩

theorem start_of_recordsOf {a : Action} (hsome : d.recordsOf a ≠ []) (ha : a.starts = true) :
    ∃ x o, d.recordsOf a = (d.start x o).records ∧
      d.references.Gave (d.perform a).references x.reference := by
  cases hplan : d.plan? a with
  | none =>
    refine absurd (recordsOf_of_none hplan fun hexpire => ?_) hsome
    rw [hexpire] at ha
    cases ha
  | some plan =>
    cases hgranted : d.granted plan with
    | none => exact absurd (recordsOf_of_refused hplan hgranted) hsome
    | some t =>
      rw [recordsOf_of_granted hplan hgranted]
      exact start_of_granted hplan hgranted ha

end Desk

end PrisonVisits
