import PrisonVisits.Proofs.CommonPrisoners

/-! # A group more

The groups of one kind are alternatives, and a prisoner has to pass every kind that has groups. So a
group of a kind that had none only narrows the circle of those who may come. A further group of a
kind never does; it lets in those whom it admits while the others of its kind do not. -/

namespace PrisonVisits

/-- Some group permits the candidate, or there is none. -/
theorem Restriction.permits_iff_group {α : Type} [Hierarchy α] {r : Restriction α}
    {candidate : Option α} : r.permits candidate = true ↔ r.groups = [] ∨
      ∃ entries ∈ r.groups, candidate.any (Hierarchy.isUnder · entries) = true := by
  cases candidate <;> simp [permits, isOpen]

namespace GroupEntries

/-- The prisoner has a value that falls under an entry of the group. -/
def admits (p : PrisonerContext) : GroupEntries → Bool
  | locations entries => p.location.any (Hierarchy.isUnder · entries)
  | categories entries => p.category.any (Hierarchy.isUnder · entries)
  | incentives entries => p.incentive.any (Hierarchy.isUnder · entries)

/-- One of the groups of the kind admits the prisoner, if there are groups of the kind. -/
def Clears (groups : List GroupEntries) (kind : GroupKind) (p : PrisonerContext) : Prop :=
  (∃ g ∈ groups, g.kind = kind) → ∃ g ∈ groups, g.kind = kind ∧ g.admits p = true

/-- There are groups of the kind of this one, and it admits the prisoner while they do not. -/
structure WidensFor (added : GroupEntries) (groups : List GroupEntries) (p : PrisonerContext) :
    Prop where
  kind : ∃ g ∈ groups, g.kind = added.kind
  refused : ∀ g ∈ groups, g.kind = added.kind → g.admits p = false
  admits : added.admits p = true

variable {groups before after : List GroupEntries} {added : GroupEntries} {kind : GroupKind}
  {p : PrisonerContext}

/-- A dimension permits a prisoner as the groups of its kind say. -/
theorem permits_iff_clears {α : Type} [Hierarchy α] {pick : GroupEntries → Option (List α)}
    {candidate : Option α} (hkind : ∀ g, (∃ entries, pick g = some entries) ↔ g.kind = kind)
    (hadmits : ∀ g entries, pick g = some entries →
      g.admits p = candidate.any (Hierarchy.isUnder · entries)) :
    (⟨groups.filterMap pick⟩ : Restriction α).permits candidate = true ↔ Clears groups kind p := by
  rw [Restriction.permits_iff_group]
  constructor
  · rintro (hnone | ⟨entries, hentries, hunder⟩) ⟨g, hg, hsame⟩
    · obtain ⟨entries, hpick⟩ := (hkind g).mpr hsame
      rw [List.filterMap_eq_nil_iff.mp hnone g hg] at hpick
      cases hpick
    · obtain ⟨g, hg, hpick⟩ := List.mem_filterMap.mp hentries
      exact ⟨g, hg, (hkind g).mp ⟨entries, hpick⟩, (hadmits g entries hpick).trans hunder⟩
  · intro hclears
    by_cases hsome : ∃ g ∈ groups, g.kind = kind
    · obtain ⟨g, hg, hsame, hadmitted⟩ := hclears hsome
      obtain ⟨entries, hpick⟩ := (hkind g).mpr hsame
      exact .inr ⟨entries, List.mem_filterMap.mpr ⟨g, hg, hpick⟩,
        (hadmits g entries hpick).symm.trans hadmitted⟩
    · refine .inl (List.filterMap_eq_nil_iff.mpr fun g hg => ?_)
      refine Option.eq_none_iff_forall_ne_some.mpr fun entries hpick => hsome ⟨g, hg, ?_⟩
      exact (hkind g).mp ⟨entries, hpick⟩

/-- A further group stands beside those of its kind, and leaves the other kinds alone. -/
theorem clears_insert : Clears (before ++ added :: after) kind p ↔
    if added.kind = kind then
      added.admits p = true ∨ ∃ g ∈ before ++ after, g.kind = kind ∧ g.admits p = true
    else Clears (before ++ after) kind p := by
  have hmem : ∀ q : GroupEntries → Prop, (∃ g ∈ before ++ added :: after, q g) ↔
      q added ∨ ∃ g ∈ before ++ after, q g := by
    intro q
    simp only [List.mem_append, List.mem_cons, or_and_right, exists_or, exists_eq_left]
    rw [or_left_comm]
  rw [Clears, hmem, hmem]
  split
  · next hsame => simp only [hsame, true_or, true_and, true_imp_iff]
  · next hother => simp only [hother, false_or, false_and, Clears]

end GroupEntries

namespace Eligibility

open GroupEntries

variable {groups before after : List GroupEntries} {added : GroupEntries} {p : PrisonerContext}

/-- A dimension is listed if it does not permit the prisoner. -/
theorem mem_refusing {e : Eligibility} {kind : GroupKind} : kind ∈ e.refusing p ↔
    match kind with
    | .location => ¬e.locations.permits p.location = true
    | .category => ¬e.categories.permits p.category = true
    | .incentive => ¬e.incentives.permits p.incentive = true := by
  unfold refusing
  generalize e.locations.permits p.location = location
  generalize e.categories.permits p.category = category
  generalize e.incentives.permits p.incentive = incentive
  cases kind <;> cases location <;> cases category <;> cases incentive <;> decide

/-- A kind refuses a prisoner if it has groups and none of them admits the prisoner. -/
theorem mem_refusing_iff {kind : GroupKind} :
    kind ∈ (ofEntries groups).refusing p ↔ ¬Clears groups kind p := by
  rw [mem_refusing]
  cases kind
  case location =>
    exact not_congr (permits_iff_clears
      (fun g => by cases g <;> simp [locations?, GroupEntries.kind])
      (fun g entries hpick => by cases g <;> cases hpick; rfl))
  case category =>
    exact not_congr (permits_iff_clears
      (fun g => by cases g <;> simp [categories?, GroupEntries.kind])
      (fun g entries hpick => by cases g <;> cases hpick; rfl))
  case incentive =>
    exact not_congr (permits_iff_clears
      (fun g => by cases g <;> simp [incentives?, GroupEntries.kind])
      (fun g entries hpick => by cases g <;> cases hpick; rfl))

theorem allows_iff_clears :
    (ofEntries groups).allows p = true ↔ ∀ kind, Clears groups kind p := by
  rw [allows, List.isEmpty_iff, List.eq_nil_iff_forall_not_mem]
  simp only [mem_refusing_iff, Classical.not_not]

/-- Whoever may come with a group more could come without it, unless the group widens. -/
theorem allows_without_iff (h : (ofEntries (before ++ added :: after)).allows p = true) :
    (ofEntries (before ++ after)).allows p = true ↔ ¬added.WidensFor (before ++ after) p := by
  rw [allows_iff_clears] at h ⊢
  constructor
  · rintro hclears ⟨hkind, hrefused, -⟩
    obtain ⟨g, hg, hsame, hadmitted⟩ := hclears added.kind hkind
    rw [hrefused g hg hsame] at hadmitted
    cases hadmitted
  · intro hnot kind
    have hwith := clears_insert.mp (h kind)
    split at hwith
    · next hsame =>
      subst hsame
      rcases hwith with hadmits | hclears
      · -- the group that admits the prisoner is the new one, so an old one must
        intro hkind
        refine Classical.byContradiction fun hnone => hnot ⟨hkind, fun g hg hsame => ?_, hadmits⟩
        exact Bool.eq_false_iff.mpr fun hadmitted => hnone ⟨g, hg, hsame, hadmitted⟩
      · exact fun _ => hclears
    · exact hwith

/-- Whoever may come with a group more could come without it, if it is the first one of its kind,
and otherwise exactly if it does not admit a prisoner whom the others of its kind refuse. A kind
without groups refuses nobody. -/
theorem first_of_kind_narrows (before after : List GroupEntries) (added : GroupEntries)
    (p : PrisonerContext) :
    ((∀ g ∈ before ++ after, g.kind ≠ added.kind) →
      (ofEntries (before ++ added :: after)).allows p = true →
        (ofEntries (before ++ after)).allows p = true) ∧
    ((ofEntries (before ++ added :: after)).allows p = true →
      ((ofEntries (before ++ after)).allows p = true ↔
        ¬added.WidensFor (before ++ after) p)) ∧
    ∀ kind, (∀ g ∈ before ++ after, g.kind ≠ kind) →
      kind ∉ (ofEntries (before ++ after)).refusing p := by
  refine ⟨fun hfirst h => ?_, allows_without_iff, fun kind hnone => ?_⟩
  · refine (allows_without_iff h).mpr fun hwidens => ?_
    obtain ⟨g, hg, hsame⟩ := hwidens.kind
    exact hfirst g hg hsame
  · rw [mem_refusing_iff, Classical.not_not]
    rintro ⟨g, hg, hsame⟩
    exact absurd hsame (hnone g hg)

end Eligibility

namespace Sample

/-- A prisoner of category C and the enhanced level. -/
def enhancedPrisoner : PrisonerContext := ⟨"A0001AA", "HEI", some .catC, some .enhanced, none⟩

def lowCategories : List GroupEntries := [.categories [.catC, .catD]]

def enhancedGroup : GroupEntries := .incentives [.enhanced]

end Sample

/-- Behind a group of categories the first group of incentive levels narrows. -/
theorem Eligibility.first_of_kind_narrows_enhanced :
    (∀ g ∈ Sample.lowCategories ++ [], g.kind ≠ Sample.enhancedGroup.kind) ∧
      (ofEntries (Sample.lowCategories ++ [Sample.enhancedGroup])).allows
        Sample.enhancedPrisoner = true ∧
      (ofEntries (Sample.lowCategories ++ [])).allows Sample.enhancedPrisoner = true := by
  have hfirst : ∀ g ∈ Sample.lowCategories ++ [], g.kind ≠ Sample.enhancedGroup.kind := by decide
  have hwith : (ofEntries (Sample.lowCategories ++ [Sample.enhancedGroup])).allows
      Sample.enhancedPrisoner = true := by
    decide
  exact ⟨hfirst, hwith, (first_of_kind_narrows Sample.lowCategories [] _ _).1 hfirst hwith⟩

/-- A second group of categories lets in a prisoner whom the first one keeps out. -/
theorem Eligibility.second_of_kind_widens : ¬∀ (groups : List GroupEntries) (added : GroupEntries)
    (p : PrisonerContext), (ofEntries (groups ++ [added])).allows p = true →
      (ofEntries groups).allows p = true := by
  intro hnarrows
  have hwithout := hnarrows [.categories [.catB]] (.categories [.catC]) Sample.enhancedPrisoner
    (by decide)
  exact absurd hwithout (by decide)

end PrisonVisits
