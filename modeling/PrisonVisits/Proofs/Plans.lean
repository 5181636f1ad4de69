import PrisonVisits.Desk.Run

/-! # What a plan that is not refused has found

A plan is a chain of checks and look-ups; one that ends in an answer has passed them all. Where
references are drawn, nothing is kept of the source but that it yielded them. -/

namespace PrisonVisits

variable {α β : Type}

/-! ## Checks -/

theorem bind_eq_ok {x : Except Refusal α} {f : α → Except Refusal β} {b : β} :
    (x >>= f) = .ok b ↔ ∃ a, x = .ok a ∧ f a = .ok b := by
  cases x <;> simp [bind, Except.bind]

theorem map_eq_ok {x : Except Refusal α} {f : α → β} {b : β} :
    x.map f = .ok b ↔ ∃ a, x = .ok a ∧ f a = b := by
  cases x <;> simp [Except.map]

theorem ok_bind (a : α) (f : α → Except Refusal β) : ((.ok a : Except Refusal α) >>= f) = f a := rfl

theorem pure_eq_ok {a b : α} : (pure a : Except Refusal α) = .ok b ↔ a = b := by
  simp [pure, Except.pure]

theorem require_eq_ok {condition : Bool} {refusal : Refusal} {u : Unit} :
    require condition refusal = .ok u ↔ condition = true := by
  unfold require
  cases condition <;> simp

theorem found_eq_ok {kind : RowKind} {reference : Reference} {row : Option α} {a : α} :
    found kind reference row = .ok a ↔ row = some a := by
  cases row <;> simp [found]

theorem forM_eq_ok {f : α → Except Refusal Unit} {l : List α} :
    l.forM f = .ok () ↔ ∀ a ∈ l, f a = .ok () := by
  induction l with
  | nil => simp [pure_eq_ok]
  | cons a l ih =>
    change (f a >>= fun _ => l.forM f) = _ ↔ _
    rw [bind_eq_ok, List.forall_mem_cons, ih]
    exact ⟨fun ⟨_, ha, hl⟩ => ⟨ha, hl⟩, fun ⟨ha, hl⟩ => ⟨(), ha, hl⟩⟩

theorem mapM_eq_ok {f : α → Except Refusal β} {l : List α} {bs : List β} :
    l.mapM f = .ok bs ↔ l.map f = bs.map .ok := by
  induction l generalizing bs with
  | nil => cases bs <;> simp [pure_eq_ok]
  | cons a l ih =>
    simp only [List.mapM_cons, bind_eq_ok, pure_eq_ok, ih, List.map_cons]
    constructor
    · rintro ⟨b, ha, bs', hl, rfl⟩
      rw [List.map_cons, ha, hl]
    · intro h
      cases bs with
      | nil => cases h
      | cons b bs =>
        obtain ⟨ha, hl⟩ := List.cons.inj h
        exact ⟨b, ha, bs, hl, rfl⟩

theorem mapM_of_forall {f : α → Except Refusal β} {g : α → β} {l : List α}
    (h : ∀ a ∈ l, f a = .ok (g a)) : l.mapM f = .ok (l.map g) := by
  rw [mapM_eq_ok, List.map_map]
  exact List.map_congr_left h

/-- A list of checks is passed if each of them is. -/
theorem exists_mapM_eq_ok {f : α → Except Refusal β} {l : List α} :
    (∃ bs, l.mapM f = .ok bs) ↔ ∀ a ∈ l, ∃ b, f a = .ok b := by
  induction l with
  | nil => simp [pure_eq_ok]
  | cons a l ih =>
    simp only [List.mapM_cons, bind_eq_ok, pure_eq_ok, List.forall_mem_cons, ← ih]
    constructor
    · rintro ⟨_, b, ha, bs, hl, -⟩
      exact ⟨⟨b, ha⟩, bs, hl⟩
    · rintro ⟨⟨b, ha⟩, bs, hl⟩
      exact ⟨_, b, ha, bs, hl, rfl⟩

theorem mem_of_mapM_eq_ok {f : α → Except Refusal β} {l : List α} {bs : List β}
    (h : l.mapM f = .ok bs) {b : β} : b ∈ bs ↔ ∃ a ∈ l, f a = .ok b := by
  rw [← List.mem_map, mapM_eq_ok.mp h, List.mem_map]
  exact ⟨fun hb => ⟨b, hb, rfl⟩, fun ⟨_, hb, heq⟩ => Except.ok.inj heq ▸ hb⟩

/-! ## Plans that draw references -/

namespace Plan

/-- Some source of references lets the plan end in the answer. -/
def Yields (p : Plan α) (a : α) : Prop := ∃ source source', p.run.run source = (.ok a, source')

theorem run_bind (p : Plan α) (f : α → Plan β) (source : ReferenceSource) :
    (p >>= f).run.run source = match p.run.run source with
      | (.ok a, source) => (f a).run.run source
      | (.error e, source) => (.error e, source) := by
  unfold ExceptT.run StateT.run
  simp only [bind, ExceptT.bind, ExceptT.mk, StateT.bind, ExceptT.bindCont]
  obtain ⟨result, source'⟩ := p source
  cases result <;> rfl

theorem Yields.bind {p : Plan α} {f : α → Plan β} {b : β} (h : (p >>= f).Yields b) :
    ∃ a, p.Yields a ∧ (f a).Yields b := by
  obtain ⟨source, source', h⟩ := h
  rw [run_bind] at h
  split at h
  · next a mid hp => exact ⟨a, ⟨source, mid, hp⟩, mid, source', h⟩
  · cases h

theorem Yields.pure {a b : α} (h : (pure a : Plan α).Yields b) : a = b := by
  obtain ⟨source, source', h⟩ := h
  cases h
  rfl

theorem Yields.lift {x : Except Refusal α} {a : α} (h : (liftM x : Plan α).Yields a) :
    x = .ok a := by
  obtain ⟨source, source', h⟩ := h
  cases x <;> cases h
  rfl

end Plan

namespace Store

theorem unused_of_drawUnused {s : Store} {attempts : Nat} {source source' : ReferenceSource}
    {reference : Reference} (h : s.drawUnused attempts source = (some reference, source')) :
    s.containsReference reference = false := by
  induction attempts generalizing source with
  | zero => cases h
  | succ attempts ih =>
    unfold drawUnused at h
    dsimp only at h
    split at h
    · exact ih h
    · next hunused =>
      cases h
      exact eq_false_of_ne_true hunused

/-- A fresh reference is that of no stored row. -/
theorem unused_of_freshReference {s : Store} {reference : Reference}
    (h : s.freshReference.Yields reference) : s.containsReference reference = false := by
  obtain ⟨source, source', h⟩ := h
  change s.freshReference source = (.ok reference, source') at h
  unfold freshReference at h
  split at h
  · next drawn rest hdraw =>
    cases h
    exact unused_of_drawUnused hdraw
  · cases h

/-- A reference that is unused is taken as it is drawn. -/
theorem run_freshReference {s : Store} {source : ReferenceSource}
    (h : s.containsReference source.draw.1 = false) :
    s.freshReference.run.run source = (.ok source.draw.1, source.draw.2) := by
  have hdraw : s.drawUnused Limits.maxReferenceAttempts source =
      (some source.draw.1, source.draw.2) := by
    rw [show Limits.maxReferenceAttempts = 15 + 1 from rfl, drawUnused]
    simp only [h, Bool.false_eq_true, if_false]
  change s.freshReference source = _
  unfold freshReference
  rw [hdraw]

end Store

end PrisonVisits
