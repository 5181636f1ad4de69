import PrisonVisits.Eligibility.Rules

/-! # Restrictions that intersect

Entries are compared in pairs, while the question is whether some prisoner is permitted by both
restrictions. The answers agree because an entry permits itself, and because entries that stand for
one value are compatible: two paths that begin the same path begin one another. A restriction whose
groups are all empty permits nobody, and yet it intersects an open one; that is the only time when
the answer is wrong. -/

namespace PrisonVisits

/-- Every value stands for itself and for whatever the values it stands for stand for, and values
that stand for the same one are compatible. -/
class LawfulHierarchy (α : Type) [Hierarchy α] : Prop where
  refl (x : α) : Hierarchy.generalizes x x = true
  trans {x y z : α} (hxy : Hierarchy.generalizes x y = true)
    (hyz : Hierarchy.generalizes y z = true) : Hierarchy.generalizes x z = true
  compatible {x y c : α} (hx : Hierarchy.generalizes x c = true)
    (hy : Hierarchy.generalizes y c = true) : Hierarchy.compatible x y = true

namespace Hierarchy

variable {α : Type} [Hierarchy α]

theorem collide_eq_true {a b : List α} :
    collide a b = true ↔ ∃ x ∈ a, ∃ y ∈ b, compatible x y = true := by
  simp only [collide, List.any_eq_true]

/-- Where values stand for themselves alone, the laws hold. -/
theorem lawful_of_eq (h : ∀ x y : α, generalizes x y = true ↔ x = y) : LawfulHierarchy α where
  refl := fun x => (h x x).mpr rfl
  trans := fun hxy hyz => (h _ _).mpr (((h _ _).mp hxy).trans ((h _ _).mp hyz))
  compatible := by
    intro x y c hx hy
    rw [compatible, (h x y).mpr (((h x c).mp hx).trans ((h y c).mp hy).symm)]
    rfl

end Hierarchy

instance : LawfulHierarchy LocationPath where
  refl := fun x => List.isPrefixOf_iff_prefix.mpr (List.prefix_refl _)
  trans := fun hxy hyz => List.isPrefixOf_iff_prefix.mpr
    ((List.isPrefixOf_iff_prefix.mp hxy).trans (List.isPrefixOf_iff_prefix.mp hyz))
  compatible := by
    intro x y c hx hy
    have hprefix := List.prefix_or_prefix_of_prefix (List.isPrefixOf_iff_prefix.mp hx)
      (List.isPrefixOf_iff_prefix.mp hy)
    rw [Hierarchy.compatible, Bool.or_eq_true]
    exact hprefix.imp List.isPrefixOf_iff_prefix.mpr List.isPrefixOf_iff_prefix.mpr

instance : LawfulHierarchy Category := Hierarchy.lawful_of_eq fun _ _ => beq_iff_eq

instance : LawfulHierarchy IncentiveLevel := Hierarchy.lawful_of_eq fun _ _ => beq_iff_eq

namespace Restriction

variable {α : Type} {a b r : Restriction α}

/-- The restriction has groups, and all of them are empty. -/
def Hollow (r : Restriction α) : Prop := r.groups ≠ [] ∧ ∀ group ∈ r.groups, group = []

theorem exists_mem_entries (hopen : ¬r.isOpen = true) (hollow : ¬r.Hollow) :
    ∃ x, x ∈ r.entries := by
  have hgroups : r.groups ≠ [] := fun h => hopen (List.isEmpty_iff.mpr h)
  obtain ⟨group, hgroup, hentries⟩ : ∃ group ∈ r.groups, group ≠ [] := by
    refine Classical.byContradiction fun hnone => hollow ⟨hgroups, fun group hgroup => ?_⟩
    exact Classical.byContradiction fun hentries => hnone ⟨group, hgroup, hentries⟩
  obtain ⟨x, hx⟩ := List.exists_mem_of_ne_nil group hentries
  exact ⟨x, List.mem_flatten.mpr ⟨group, hgroup, hx⟩⟩

variable [Hierarchy α]

theorem permits_some {c : α} : r.permits (some c) = true ↔
    r.isOpen = true ∨ ∃ x ∈ r.entries, Hierarchy.generalizes x c = true := by
  simp only [permits, Bool.or_eq_true, List.any_eq_true, Hierarchy.isUnder, entries,
    List.mem_flatten]
  refine or_congr_right ⟨?_, ?_⟩
  · rintro ⟨group, hgroup, x, hx, hunder⟩
    exact ⟨x, ⟨group, hgroup, hx⟩, hunder⟩
  · rintro ⟨x, ⟨group, hgroup, hx⟩, hunder⟩
    exact ⟨group, hgroup, x, hx, hunder⟩

theorem permits_none : r.permits none = true ↔ r.isOpen = true := by
  simp [permits]

theorem permits_of_isOpen (h : r.isOpen = true) (candidate : Option α) :
    r.permits candidate = true := by
  unfold permits
  rw [h, Bool.true_or]

/-- Nobody falls under entries that do not exist. -/
theorem Hollow.permits_eq_false (h : r.Hollow) (candidate : Option α) :
    r.permits candidate = false := by
  rw [← Bool.not_eq_true]
  intro hpermits
  have hclosed : ¬r.isOpen = true := fun hopen => h.1 (List.isEmpty_iff.mp hopen)
  cases candidate with
  | none => exact hclosed (permits_none.mp hpermits)
  | some c =>
    obtain ⟨x, hx, -⟩ := (permits_some.mp hpermits).resolve_left hclosed
    obtain ⟨group, hgroup, hentry⟩ := List.mem_flatten.mp hx
    rw [h.2 group hgroup] at hentry
    cases hentry

/-- Some value, or having none, is permitted by both. -/
def Shares (a b : Restriction α) : Prop :=
  ∃ candidate, a.permits candidate = true ∧ b.permits candidate = true

theorem Shares.symm (h : a.Shares b) : b.Shares a := by
  obtain ⟨candidate, hpa, hpb⟩ := h
  exact ⟨candidate, hpb, hpa⟩

/-- The one is open and the other permits nobody. -/
def OpenBesideHollow (a b : Restriction α) : Prop :=
  a.isOpen = true ∧ b.Hollow ∨ b.isOpen = true ∧ a.Hollow

theorem OpenBesideHollow.not_shares (h : a.OpenBesideHollow b) : ¬a.Shares b := by
  rintro ⟨candidate, hpa, hpb⟩
  rcases h with ⟨-, hollow⟩ | ⟨-, hollow⟩
  · exact absurd hpb (by simp [hollow.permits_eq_false])
  · exact absurd hpa (by simp [hollow.permits_eq_false])

theorem intersects_eq_true : a.intersects b = true ↔
    (a.isOpen = true ∨ b.isOpen = true) ∨
      ∃ x ∈ a.entries, ∃ y ∈ b.entries, Hierarchy.compatible x y = true := by
  simp only [intersects, Bool.or_eq_true, Hierarchy.collide_eq_true]

variable [LawfulHierarchy α]

theorem permits_entry {x : α} (h : x ∈ r.entries) : r.permits (some x) = true :=
  permits_some.mpr (.inr ⟨x, h, LawfulHierarchy.refl x⟩)

/-- A restriction that has an entry or is open permits somebody. -/
theorem exists_permits (hollow : ¬r.Hollow) : ∃ candidate, r.permits candidate = true := by
  by_cases hopen : r.isOpen = true
  · exact ⟨none, permits_of_isOpen hopen none⟩
  · obtain ⟨x, hx⟩ := exists_mem_entries hopen hollow
    exact ⟨some x, permits_entry hx⟩

theorem shares_of_isOpen (hopen : a.isOpen = true) (hollow : ¬b.Hollow) : a.Shares b := by
  obtain ⟨candidate, hpermits⟩ := exists_permits hollow
  exact ⟨candidate, permits_of_isOpen hopen candidate, hpermits⟩

/-- The narrower of two compatible entries falls under both. -/
theorem shares_of_compatible {x y : α} (hx : x ∈ a.entries) (hy : y ∈ b.entries)
    (h : Hierarchy.compatible x y = true) : a.Shares b := by
  rw [Hierarchy.compatible, Bool.or_eq_true] at h
  rcases h with hwide | hwide
  · exact ⟨some y, permits_some.mpr (.inr ⟨x, hx, hwide⟩), permits_entry hy⟩
  · exact ⟨some x, permits_entry hx, permits_some.mpr (.inr ⟨y, hy, hwide⟩)⟩

/-- Restrictions intersect if somebody is permitted by both, and beyond that only if one is open and
the other hollow. -/
theorem intersects_iff_shares_or : a.intersects b = true ↔ a.Shares b ∨ a.OpenBesideHollow b := by
  rw [intersects_eq_true]
  constructor
  · rintro ((hopen | hopen) | ⟨x, hx, y, hy, hcompatible⟩)
    · by_cases hollow : b.Hollow
      · exact .inr (.inl ⟨hopen, hollow⟩)
      · exact .inl (shares_of_isOpen hopen hollow)
    · by_cases hollow : a.Hollow
      · exact .inr (.inr ⟨hopen, hollow⟩)
      · exact .inl (shares_of_isOpen hopen hollow).symm
    · exact .inl (shares_of_compatible hx hy hcompatible)
  · rintro (⟨candidate, hpa, hpb⟩ | ⟨hopen, -⟩ | ⟨hopen, -⟩)
    · cases candidate with
      | none => exact .inl (.inl (permits_none.mp hpa))
      | some c =>
        rcases permits_some.mp hpa with hopen | ⟨x, hx, hxc⟩
        · exact .inl (.inl hopen)
        rcases permits_some.mp hpb with hopen | ⟨y, hy, hyc⟩
        · exact .inl (.inr hopen)
        exact .inr ⟨x, hx, y, hy, LawfulHierarchy.compatible hxc hyc⟩
    · exact .inl (.inl hopen)
    · exact .inl (.inr hopen)

/-- Restrictions that are not hollow intersect exactly if there is a value, or none, that both
permit. -/
theorem intersects_iff (ha : ¬a.Hollow) (hb : ¬b.Hollow) :
    a.intersects b = true ↔
      ∃ candidate, a.permits candidate = true ∧ b.permits candidate = true := by
  have hbeside : ¬a.OpenBesideHollow b := by
    rintro (⟨-, hollow⟩ | ⟨-, hollow⟩)
    · exact hb hollow
    · exact ha hollow
  rw [intersects_iff_shares_or, or_iff_left hbeside, Shares]

/-- Whether the restrictions intersect says whether somebody is permitted by both, unless one is
open and the other hollow: those intersect, and nobody is permitted by both. -/
structure TellsShared (a b : Restriction α) : Prop where
  shared : ¬a.OpenBesideHollow b → (a.intersects b = true ↔ a.Shares b)
  beside : a.OpenBesideHollow b → a.intersects b = true ∧ ¬a.Shares b

theorem tellsShared (a b : Restriction α) : a.TellsShared b where
  shared := fun h => intersects_iff_shares_or.trans (or_iff_left h)
  beside := fun h => ⟨intersects_iff_shares_or.mpr (.inr h), h.not_shares⟩

/-- In each dimension, two restrictions intersect exactly if somebody is permitted by both, but for
an open one beside a hollow one. -/
theorem tellsShared_every_dimension (locations locations' : Restriction LocationPath)
    (categories categories' : Restriction Category)
    (incentives incentives' : Restriction IncentiveLevel) :
    locations.TellsShared locations' ∧ categories.TellsShared categories' ∧
      incentives.TellsShared incentives' :=
  ⟨tellsShared .., tellsShared .., tellsShared ..⟩

/-- An empty group beside no group at all. -/
example : (unrestricted : Restriction Category).intersects ⟨[[]]⟩ = true ∧
    ¬(unrestricted : Restriction Category).Shares ⟨[[]]⟩ :=
  ⟨by decide, OpenBesideHollow.not_shares (.inl ⟨rfl, by simp [Hollow]⟩)⟩

end Restriction

namespace Eligibility

/-- Some dimension is restricted, but by empty groups only. -/
def Hollow (e : Eligibility) : Prop :=
  e.locations.Hollow ∨ e.categories.Hollow ∨ e.incentives.Hollow

theorem allows_iff {e : Eligibility} {p : PrisonerContext} : e.allows p = true ↔
    e.locations.permits p.location = true ∧ e.categories.permits p.category = true ∧
      e.incentives.permits p.incentive = true := by
  simp only [allows, refusing, List.isEmpty_iff, List.append_eq_nil_iff, ite_eq_left_iff,
    List.cons_ne_nil, imp_false, Decidable.not_not, and_assoc]

/-- Without hollow dimensions, two templates can have a visitor in common exactly if some prisoner
may come to both: the dimensions do not depend on one another. -/
theorem intersects_iff {a b : Eligibility} (ha : ¬a.Hollow) (hb : ¬b.Hollow) :
    a.intersects b = true ↔ ∃ p, a.allows p = true ∧ b.allows p = true := by
  simp only [Hollow, not_or] at ha hb
  obtain ⟨halocations, hacategories, haincentives⟩ := ha
  obtain ⟨hblocations, hbcategories, hbincentives⟩ := hb
  simp only [intersects, Bool.and_eq_true, Restriction.intersects_iff halocations hblocations,
    Restriction.intersects_iff hacategories hbcategories,
    Restriction.intersects_iff haincentives hbincentives, allows_iff]
  constructor
  · rintro ⟨⟨⟨location, hla, hlb⟩, category, hca, hcb⟩, incentive, hia, hib⟩
    exact ⟨⟨"", "", category, incentive, location⟩, ⟨hla, hca, hia⟩, hlb, hcb, hib⟩
  · rintro ⟨p, ⟨hla, hca, hia⟩, hlb, hcb, hib⟩
    exact ⟨⟨⟨p.location, hla, hlb⟩, p.category, hca, hcb⟩, p.incentive, hia, hib⟩

end Eligibility

end PrisonVisits
