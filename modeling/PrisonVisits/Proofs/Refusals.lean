import PrisonVisits.Proofs.DrawnReferences

/-! # What a check can refuse for

A chain of checks is refused for what one of them refuses for, so a kind of refusal that each check
avoids is avoided by the chain. -/

namespace PrisonVisits

variable {α β : Type} {kind : Refusal → Bool}

/-- The result is not a refusal of the kind. -/
def Avoids (kind : Refusal → Bool) (x : Except Refusal α) : Prop :=
  ∀ refusal, x = .error refusal → kind refusal = false

theorem avoids_ok (a : α) : Avoids kind (.ok a) := by
  rintro _ ⟨⟩

theorem avoids_error {refusal : Refusal} (h : kind refusal = false) :
    Avoids kind (.error refusal : Except Refusal α) := by
  rintro _ ⟨⟩
  exact h

theorem avoids_require {refusal : Refusal} (h : kind refusal = false) (condition : Bool) :
    Avoids kind (require condition refusal) := by
  cases condition
  · exact avoids_error h
  · exact avoids_ok ()

theorem avoids_found {row : RowKind} {reference : Reference}
    (h : kind (.notFound row reference) = false) (x : Option α) :
    Avoids kind (found row reference x) := by
  cases x
  · exact avoids_error h
  · exact avoids_ok _

theorem Avoids.bind {x : Except Refusal α} {f : α → Except Refusal β} (h : Avoids kind x)
    (hf : ∀ a, x = .ok a → Avoids kind (f a)) : Avoids kind (x >>= f) := by
  cases x with
  | error refusal => exact avoids_error (h refusal rfl)
  | ok a => exact hf a rfl

/-- A chain whose first check avoids the kind of a refusal is refused so by the rest. -/
theorem Avoids.of_bind_eq_error {x : Except Refusal α} {f : α → Except Refusal β}
    {refusal : Refusal} (h : Avoids kind x) (hkind : kind refusal = true)
    (hrefused : (x >>= f) = .error refusal) : ∃ a, x = .ok a ∧ f a = .error refusal := by
  cases x with
  | error other =>
    cases hrefused
    exact absurd (h refusal rfl) (by simp [hkind])
  | ok a => exact ⟨a, rfl, hrefused⟩

theorem require_bind_eq_error {condition : Bool} {refusal asked : Refusal}
    {f : Unit → Except Refusal β} : (require condition refusal >>= f) = .error asked ↔
      condition = false ∧ refusal = asked ∨ condition = true ∧ f () = .error asked := by
  cases condition <;> simp [require, bind, Except.bind]

theorem avoids_mapM {f : α → Except Refusal β} {l : List α} (h : ∀ a ∈ l, Avoids kind (f a)) :
    Avoids kind (l.mapM f) := by
  induction l with
  | nil => exact avoids_ok _
  | cons a l ih =>
    obtain ⟨ha, hl⟩ := List.forall_mem_cons.mp h
    rw [List.mapM_cons]
    exact ha.bind fun _ _ => (ih hl).bind fun _ _ => avoids_ok _

theorem avoids_forM {f : α → Except Refusal Unit} {l : List α} (h : ∀ a ∈ l, Avoids kind (f a)) :
    Avoids kind (l.forM f) := by
  induction l with
  | nil => exact avoids_ok _
  | cons a l ih =>
    obtain ⟨ha, hl⟩ := List.forall_mem_cons.mp h
    exact ha.bind fun _ _ => ih hl

/-! ## Checks of a booking -/

theorem avoids_checkCounts (h : ∀ excess, kind (.limitExceeded excess) = false)
    (visitors : List Visitor) (support : List VisitorSupport) :
    Avoids kind (checkCounts visitors support) :=
  (avoids_require (h _) _).bind fun _ _ =>
    (avoids_require (h _) _).bind fun _ _ => avoids_require (h _) _

theorem VisitorSupport.avoids_check
    (hunknown : ∀ code, kind (.validation (.unknownSupport code)) = false)
    (hblank : kind (.validation .supportUndescribed) = false) (s : VisitorSupport) :
    Avoids kind s.check := by
  unfold check
  split
  · exact avoids_error (hunknown _)
  · exact avoids_require hblank _

theorem Application.avoids_checkBookable (hinvalid : ∀ fault, kind (.validation fault) = false)
    {a : Application} (hcounts : Avoids kind (checkCounts a.visitors a.support)) :
    Avoids kind a.checkBookable := by
  refine hcounts.bind fun _ _ => ?_
  refine (avoids_require (hinvalid _) _).bind fun _ _ => ?_
  refine (avoids_require (hinvalid _) _).bind fun _ _ => ?_
  exact avoids_forM fun _ _ => VisitorSupport.avoids_check (fun _ => hinvalid _) (hinvalid _) _

theorem Desk.avoids_prisoner (h : ∀ prisonerId, kind (.unknownPrisoner prisonerId) = false)
    (d : Desk) (prisonerId : String) : Avoids kind (d.prisoner prisonerId) := by
  unfold prisoner
  split
  · exact avoids_ok _
  · exact avoids_error (h _)

section

variable (hmissing : ∀ row reference, kind (.notFound row reference) = false)
  (hinvalid : ∀ fault, kind (.validation fault) = false)
include hmissing hinvalid

theorem Store.avoids_eligibilityOf (s : Store) (T : SessionTemplate) :
    Avoids kind (s.eligibilityOf T) := by
  have hresolve : ∀ dimension reference,
      Avoids kind (s.resolve T.prisonCode dimension reference) := fun dimension reference =>
    (avoids_found (hmissing ..) _).bind fun _ _ => (avoids_require (hinvalid _) _).bind fun _ _ =>
      (avoids_require (hinvalid _) _).bind fun _ _ => avoids_ok _
  refine (avoids_mapM fun _ _ => hresolve _ _).bind fun _ _ => ?_
  refine (avoids_mapM fun _ _ => hresolve _ _).bind fun _ _ => ?_
  exact (avoids_mapM fun _ _ => hresolve _ _).bind fun _ _ => avoids_ok _

theorem Desk.avoids_confirmStillApplies
    (hunknown : ∀ prisonerId, kind (.unknownPrisoner prisonerId) = false)
    (hineligible : ∀ prisonerId dimensions, kind (.notEligible prisonerId dimensions) = false)
    (d : Desk) (a : Application) : Avoids kind (d.confirmStillApplies a) := by
  refine (avoids_found (hmissing ..) _).bind fun T _ => ?_
  refine (avoids_require (hinvalid _) _).bind fun _ _ => ?_
  refine (avoids_prisoner hunknown d _).bind fun context _ => ?_
  refine (avoids_require (hinvalid _) _).bind fun _ _ => ?_
  exact (d.store.avoids_eligibilityOf hmissing hinvalid T).bind fun _ _ =>
    avoids_require (hineligible ..) _

end

theorem Desk.answer_lift {α : Type} (d : Desk) (x : Except Refusal (Transition α)) :
    (d.transact (liftM x)).1 = x.map (·.answer) := by
  rw [answer_transact, Plan.run_lift]

/-- A booking is refused for what its plan is refused for. -/
theorem Desk.avoids_book {d : Desk} {reference : Reference} {actionedBy : String}
    (h : Avoids kind (d.planBook reference actionedBy)) :
    Avoids kind (d.book reference actionedBy).1 := by
  rw [book, answer_lift]
  cases hresult : d.planBook reference actionedBy with
  | ok t => exact avoids_ok _
  | error refusal => exact avoids_error (h refusal hresult)

end PrisonVisits
