import PrisonVisits.Proofs.Refusals
import PrisonVisits.Proofs.SessionLists

/-! # Nothing fails for want of a group

Where a template names a group that is missing, of another kind or of another prison, everything
that asks who may come to the template's sessions is refused. As long as the groups of all stored
templates are found, no request for sessions, for a move or for a booking is refused so. -/

namespace PrisonVisits

variable {α β : Type}

/-- The refusal is about a group that is missing or does not belong where it is named. -/
def Refusal.aboutGroup : Refusal → Bool
  | .notFound .group _ => true
  | .validation (.groupOfOtherKind ..) | .validation (.groupOfOtherPrison ..) => true
  | _ => false

/-- The result is not a refusal about a group. -/
def SparesGroups (x : Except Refusal α) : Prop :=
  ∀ refusal, x = .error refusal → refusal.aboutGroup = false

/-! ## Checks and plans -/

theorem sparesGroups_ok (a : α) : SparesGroups (.ok a) := avoids_ok a

theorem sparesGroups_error {refusal : Refusal} (h : refusal.aboutGroup = false) :
    SparesGroups (.error refusal : Except Refusal α) := avoids_error h

theorem sparesGroups_of_eq_ok {x : Except Refusal α} (h : ∃ a, x = .ok a) : SparesGroups x := by
  obtain ⟨a, rfl⟩ := h
  exact sparesGroups_ok a

theorem sparesGroups_require {refusal : Refusal} (h : refusal.aboutGroup = false)
    (condition : Bool) : SparesGroups (require condition refusal) := avoids_require h condition

theorem sparesGroups_found {kind : RowKind} (h : kind ≠ .group) (reference : Reference)
    (row : Option α) : SparesGroups (found kind reference row) := by
  refine avoids_found ?_ row
  cases kind <;> first | rfl | exact absurd rfl h

theorem SparesGroups.bind {x : Except Refusal α} {f : α → Except Refusal β} (h : SparesGroups x)
    (hf : ∀ a, x = .ok a → SparesGroups (f a)) : SparesGroups (x >>= f) := Avoids.bind h hf

/-- From no source of references does the plan come to a refusal about a group. -/
def Plan.SparesGroups (p : Plan α) : Prop :=
  ∀ source, PrisonVisits.SparesGroups (p.run.run source).1

namespace Plan

theorem sparesGroups_lift {x : Except Refusal α} (h : PrisonVisits.SparesGroups x) :
    Plan.SparesGroups (liftM x) := by
  intro source
  cases x with
  | error refusal => exact sparesGroups_error (h refusal rfl)
  | ok a => exact sparesGroups_ok a

theorem sparesGroups_pure (a : α) : Plan.SparesGroups (pure a) := fun _ => sparesGroups_ok a

theorem SparesGroups.bind {p : Plan α} {f : α → Plan β} (h : p.SparesGroups)
    (hf : ∀ a, p.Yields a → (f a).SparesGroups) : (p >>= f).SparesGroups := by
  intro source
  have hfirst := h source
  rw [run_bind]
  cases hp : p.run.run source with
  | mk result rest =>
    rw [hp] at hfirst
    cases result with
    | error refusal => exact sparesGroups_error (hfirst refusal rfl)
    | ok a => exact hf a ⟨source, rest, hp⟩ rest

end Plan

theorem Store.sparesGroups_freshReference (s : Store) : s.freshReference.SparesGroups := by
  intro source
  change SparesGroups (s.freshReference source).1
  unfold freshReference
  split
  · exact sparesGroups_ok _
  · exact sparesGroups_error rfl

theorem Desk.SparesGroups.transact {d : Desk} {plan : Plan (Transition α)}
    (h : plan.SparesGroups) : SparesGroups (d.transact plan).1 := by
  have hrun := h d.references
  unfold Desk.transact
  split
  · next refusal _ heq =>
    rw [heq] at hrun
    exact sparesGroups_error (hrun refusal rfl)
  · exact sparesGroups_ok _

/-! ## Templates whose groups are found -/

namespace Store

variable {s : Store}

/-- Comparing a template with the stored ones fails only for groups of its own. -/
theorem exists_conflictsOf_eq_ok (h : s.Sound) (hgrouped : s.rows.Grouped) {T : SessionTemplate} :
    (∃ conflicts, s.conflictsOf T = .ok conflicts) ↔ s.rows.Resolves T.toTemplateDraft := by
  refine ⟨fun ⟨_, hconflicts⟩ => resolves_of_conflictsOf hconflicts, fun hresolves => ?_⟩
  have hshape : ∀ t, s.rows.Resolves t.toTemplateDraft → ∃ shape, s.shapeOf t = .ok shape := by
    intro t ht
    obtain ⟨eligibility, heligibility⟩ := exists_eligibilityOf_eq_ok.mpr ht
    exact ⟨⟨t, eligibility⟩, bind_eq_ok.mpr ⟨eligibility, heligibility, rfl⟩⟩
  obtain ⟨shape, hown⟩ := hshape T hresolves
  obtain ⟨existing, hothers⟩ := exists_mapM_eq_ok.mpr fun t (ht : t ∈ s.templatesForPrison
    T.prisonCode) => hshape t (hgrouped t.reference t (h.mem_templatesForPrison.mp ht).1)
  exact ⟨_, bind_eq_ok.mpr ⟨shape, hown, bind_eq_ok.mpr ⟨existing, hothers, rfl⟩⟩⟩

theorem sparesGroups_getTemplate (s : Store) (reference : Reference) :
    SparesGroups (s.getTemplate reference) := sparesGroups_found (by decide) _ _

theorem sparesGroups_eligibilityOf (hgrouped : s.rows.Grouped) {reference : Reference}
    {T : SessionTemplate} (hT : s.getTemplate reference = .ok T) :
    SparesGroups (s.eligibilityOf T) :=
  sparesGroups_of_eq_ok (exists_eligibilityOf_eq_ok.mpr
    (hgrouped reference T (Desk.getTemplate_eq_ok.mp hT)))

theorem sparesGroups_checkMove (hgrouped : s.rows.Grouped) (source target : Reference) :
    SparesGroups (s.checkMove source target) := by
  refine (sparesGroups_getTemplate _ _).bind fun S hS => ?_
  refine (sparesGroups_getTemplate _ _).bind fun T hT => ?_
  refine ((sparesGroups_eligibilityOf hgrouped hS).bind fun _ _ => sparesGroups_ok _).bind
    fun _ _ => ?_
  refine ((sparesGroups_eligibilityOf hgrouped hT).bind fun _ _ => sparesGroups_ok _).bind
    fun _ _ => ?_
  exact sparesGroups_require rfl _

end Store

namespace Desk

variable {d : Desk}

theorem sparesGroups_prisoner (d : Desk) (prisonerId : String) :
    SparesGroups (d.prisoner prisonerId) := avoids_prisoner (fun _ => rfl) d prisonerId

theorem sparesGroups_bookingWindow (d : Desk) : SparesGroups d.bookingWindow := by
  unfold bookingWindow
  split
  · exact sparesGroups_ok _
  · exact sparesGroups_error rfl

theorem sparesGroups_sessions (h : d.store.Sound) (hgrouped : d.store.rows.Grouped)
    (q : SessionQuery) : SparesGroups (d.sessions q) := by
  refine (sparesGroups_require rfl _).bind fun _ _ => ?_
  refine SparesGroups.bind ?_ fun context _ => ?_
  · unfold queryContext
    split
    · exact sparesGroups_ok _
    · exact (d.sparesGroups_prisoner _).bind fun _ _ =>
        (sparesGroups_require rfl _).bind fun _ _ => sparesGroups_ok _
  refine d.sparesGroups_bookingWindow.bind fun window _ => ?_
  dsimp only
  split
  · exact sparesGroups_ok _
  · refine SparesGroups.bind (sparesGroups_of_eq_ok (exists_mapM_eq_ok.mpr fun t ht => ?_))
      fun _ _ => sparesGroups_ok _
    have hstored := (h.mem_templatesForPrison.mp ht).1
    exact ⟨_, templateSessions_eq (hgrouped t.reference t hstored) ..⟩

/-! ## Bookings -/

theorem sparesGroups_checkEligible (hgrouped : d.store.rows.Grouped) {reference : Reference}
    {T : SessionTemplate} (hT : d.store.getTemplate reference = .ok T) (context : PrisonerContext)
    (prisonerId : String) : SparesGroups (d.checkEligible context prisonerId T) :=
  (Store.sparesGroups_eligibilityOf hgrouped hT).bind fun _ _ => sparesGroups_require rfl _

theorem sparesGroups_checkCounts (visitors : List Visitor) (support : List VisitorSupport) :
    SparesGroups (checkCounts visitors support) :=
  avoids_checkCounts (fun _ => rfl) visitors support

theorem sparesGroups_holdSlot (hgrouped : d.store.rows.Grouped) (prisonerId : String) (slot : Slot)
    (bookingReference : Reference) :
    SparesGroups (d.holdSlot prisonerId slot bookingReference) := by
  refine (d.sparesGroups_prisoner _).bind fun context _ => ?_
  refine (Store.sparesGroups_getTemplate _ _).bind fun T hT => ?_
  refine (sparesGroups_require rfl _).bind fun _ _ => ?_
  refine (sparesGroups_require rfl _).bind fun _ _ => ?_
  refine (sparesGroups_require rfl _).bind fun _ _ => ?_
  refine d.sparesGroups_bookingWindow.bind fun window _ => ?_
  refine (sparesGroups_require rfl _).bind fun _ _ => ?_
  refine (sparesGroups_checkEligible hgrouped hT context prisonerId).bind fun _ _ => ?_
  exact (sparesGroups_require rfl _).bind fun _ _ => sparesGroups_ok _

theorem sparesGroups_reserve (hgrouped : d.store.rows.Grouped) (r : ReserveRequest) :
    SparesGroups (d.reserve r).1 := by
  refine SparesGroups.transact ?_
  refine (Plan.sparesGroups_lift (sparesGroups_checkCounts _ _)).bind fun _ _ => ?_
  refine Plan.SparesGroups.bind ?_ fun bookingReference _ => ?_
  · unfold bookingFor
    split
    · exact d.store.sparesGroups_freshReference
    · refine (Plan.sparesGroups_lift (sparesGroups_found (by decide) _ _)).bind fun _ _ => ?_
      exact (Plan.sparesGroups_lift (sparesGroups_require rfl _)).bind fun _ _ =>
        Plan.sparesGroups_pure _
  refine (Plan.sparesGroups_lift (sparesGroups_holdSlot hgrouped _ _ _)).bind fun _ _ => ?_
  exact d.store.sparesGroups_freshReference.bind fun _ _ => Plan.sparesGroups_pure _

theorem sparesGroups_change (hgrouped : d.store.rows.Grouped) (r : ChangeRequest) :
    SparesGroups (d.change r).1 := by
  refine SparesGroups.transact ?_
  refine (Plan.sparesGroups_lift (sparesGroups_checkCounts _ _)).bind fun _ _ => ?_
  refine (Plan.sparesGroups_lift ?_).bind fun booked _ => ?_
  · unfold bookedForChange
    split
    · exact sparesGroups_ok _
    · split <;> exact sparesGroups_error rfl
  refine (Plan.sparesGroups_lift (sparesGroups_holdSlot hgrouped _ _ _)).bind fun _ _ => ?_
  exact d.store.sparesGroups_freshReference.bind fun _ _ => Plan.sparesGroups_pure _

theorem sparesGroups_amend (hgrouped : d.store.rows.Grouped) (reference : Reference)
    (m : Amendment) : SparesGroups (d.amend reference m).1 := by
  refine SparesGroups.transact (Plan.sparesGroups_lift ?_)
  refine (sparesGroups_found (by decide) _ _).bind fun existing _ => ?_
  refine (sparesGroups_require rfl _).bind fun _ _ => ?_
  refine (sparesGroups_found (by decide) _ _).bind fun draft _ => ?_
  refine (sparesGroups_checkCounts _ _).bind fun _ _ => ?_
  refine SparesGroups.bind ?_ fun _ _ => sparesGroups_ok _
  unfold placeAmended
  split
  · exact sparesGroups_ok _
  · exact (sparesGroups_holdSlot hgrouped _ _ _).bind fun _ _ => sparesGroups_ok _

theorem sparesGroups_checkBookable (a : Application) : SparesGroups a.checkBookable := by
  refine (sparesGroups_checkCounts _ _).bind fun _ _ => ?_
  refine (sparesGroups_require rfl _).bind fun _ _ => ?_
  refine (sparesGroups_require rfl _).bind fun _ _ => ?_
  exact avoids_forM fun s _ => s.avoids_check (fun _ => rfl) rfl

theorem sparesGroups_book (hgrouped : d.store.rows.Grouped) (reference : Reference)
    (actionedBy : String) : SparesGroups (d.book reference actionedBy).1 := by
  refine SparesGroups.transact (Plan.sparesGroups_lift ?_)
  refine (sparesGroups_found (by decide) _ _).bind fun existing _ => ?_
  refine (sparesGroups_require rfl _).bind fun _ _ => ?_
  refine (sparesGroups_checkBookable existing).bind fun _ _ => ?_
  refine (sparesGroups_found (by decide) _ _).bind fun draft _ => ?_
  refine (sparesGroups_require rfl _).bind fun _ _ => ?_
  refine SparesGroups.bind ?_ fun _ _ => sparesGroups_ok _
  refine (Store.sparesGroups_getTemplate _ _).bind fun T hT => ?_
  refine (sparesGroups_require rfl _).bind fun _ _ => ?_
  refine (d.sparesGroups_prisoner _).bind fun context _ => ?_
  refine (sparesGroups_require rfl _).bind fun _ _ => ?_
  exact sparesGroups_checkEligible hgrouped hT context _

end Desk

end PrisonVisits
