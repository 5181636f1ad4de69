import PrisonVisits.Proofs.Runs
import PrisonVisits.Proofs.Seats

/-! # The groups that templates name

A template is saved only if its groups are found, a group keeps its prison and its kind, and one
that a template names is not deleted. So the groups of a stored template are always found, and what
it asks of prisoners is always known. -/

namespace PrisonVisits

open Rows Table

/-- The groups that a template names in a dimension. -/
def TemplateDraft.groups (t : TemplateDraft) : GroupKind → List Reference
  | .location => t.locationGroups
  | .category => t.categoryGroups
  | .incentive => t.incentiveGroups

theorem TemplateDraft.mem_groupReferences {t : TemplateDraft} {reference : Reference} :
    reference ∈ t.groupReferences ↔ ∃ kind, reference ∈ t.groups kind := by
  simp only [groupReferences, List.mem_append]
  constructor
  · rintro ((h | h) | h)
    · exact ⟨.location, h⟩
    · exact ⟨.category, h⟩
    · exact ⟨.incentive, h⟩
  · rintro ⟨_ | _ | _, h⟩
    · exact .inl (.inl h)
    · exact .inl (.inr h)
    · exact .inr h

namespace Rows

/-- A group of the prison with entries of the kind is stored under the reference. -/
def HasGroup (t : Rows) (prisonCode : String) (kind : GroupKind) (reference : Reference) : Prop :=
  ∃ g, t.groups[reference]? = some g ∧ g.entries.kind = kind ∧ g.prisonCode = prisonCode

/-- Every group that the template names is one of its prison and of the dimension's kind. -/
def Resolves (t : Rows) (T : TemplateDraft) : Prop :=
  ∀ kind, ∀ reference ∈ T.groups kind, t.HasGroup T.prisonCode kind reference

/-- The groups of every stored template are found. -/
def Grouped (t : Rows) : Prop :=
  ∀ (reference : Reference) T, t.templates[reference]? = some T → t.Resolves T.toTemplateDraft

variable {t t' : Rows}

theorem grouped_empty : Store.empty.rows.Grouped := Table.All.empty

theorem Grouped.congr (h : t.Grouped) (hgroups : t'.groups = t.groups)
    (htemplates : t'.templates = t.templates) : t'.Grouped := by
  intro reference T hT kind group hgroup
  rw [htemplates] at hT
  unfold HasGroup
  rw [hgroups]
  exact h reference T hT kind group hgroup

/-- Groups may come, and may change but for their prison and kind. -/
theorem Grouped.groupSaved (h : t.Grouped) {group : HierarchyGroup}
    (hsame : ∀ old, t.groups[group.reference]? = some old →
      old.entries.kind = group.entries.kind ∧ old.prisonCode = group.prisonCode) :
    (t.apply (.groupSaved group)).Grouped := by
  intro reference T hT kind other hother
  obtain ⟨g, hg, hkind, hprison⟩ := h reference T hT kind other hother
  simp only [HasGroup, apply, getElem?_insert]
  by_cases hkey : group.reference = other
  · rw [if_pos hkey]
    rw [← hkey] at hg
    obtain ⟨hkinds, hprisons⟩ := hsame g hg
    exact ⟨group, rfl, hkinds.symm.trans hkind, hprisons.symm.trans hprison⟩
  · rw [if_neg hkey]
    exact ⟨g, hg, hkind, hprison⟩

theorem Grouped.groupDeleted (h : t.Grouped) {group : Reference}
    (hunused : ∀ (reference : Reference) T, t.templates[reference]? = some T →
      group ∉ T.groupReferences) : (t.apply (.groupDeleted group)).Grouped := by
  intro reference T hT kind other hother
  obtain ⟨g, hg, hfits⟩ := h reference T hT kind other hother
  have hne : group ≠ other := by
    rintro rfl
    exact hunused reference T hT (TemplateDraft.mem_groupReferences.mpr ⟨kind, hother⟩)
  simp only [HasGroup, apply, getElem?_erase]
  rw [if_neg hne]
  exact ⟨g, hg, hfits⟩

theorem Grouped.templateSaved (h : t.Grouped) {T : SessionTemplate}
    (hT : t.Resolves T.toTemplateDraft) : (t.apply (.templateSaved T)).Grouped :=
  All.insert (p := fun S : SessionTemplate => t.Resolves S.toTemplateDraft) h hT _

theorem Grouped.templateDeleted (h : t.Grouped) (deleted : Reference) :
    (t.apply (.templateDeleted deleted)).Grouped :=
  All.erase (p := fun S : SessionTemplate => t.Resolves S.toTemplateDraft) h deleted

/-- The first tables of a snapshot hold all groups, or neither groups nor templates. -/
theorem Grouped.first (h : t.Grouped) (n : Nat) : (t.first n).Grouped := by
  intro reference T hT
  by_cases hn : 2 ≤ n
  · have hgroups : (t.first n).groups = t.groups := if_pos (by omega)
    have htemplates : (t.first n).templates = t.templates := if_pos hn
    exact h.congr hgroups htemplates reference T hT
  · have hnone : (t.first n).templates = ∅ := if_neg hn
    simp [hnone] at hT

end Rows

namespace Store

variable {s : Store}

theorem exists_resolve_eq_ok {prisonCode : String} {kind : GroupKind} {reference : Reference} :
    (∃ entries, s.resolve prisonCode kind reference = .ok entries) ↔
      s.rows.HasGroup prisonCode kind reference := by
  simp only [resolve, getGroup, bind_eq_ok, found_eq_ok, require_eq_ok, pure_eq_ok, beq_iff_eq,
    group?]
  constructor
  · rintro ⟨_, g, hg, -, hkind, -, hprison, -⟩
    exact ⟨g, hg, hkind, hprison⟩
  · rintro ⟨g, hg, hkind, hprison⟩
    exact ⟨_, g, hg, (), hkind, (), hprison, rfl⟩

/-- What a template asks of prisoners is known exactly if its groups are found. -/
theorem exists_eligibilityOf_eq_ok {T : SessionTemplate} :
    (∃ eligibility, s.eligibilityOf T = .ok eligibility) ↔
      s.rows.Resolves T.toTemplateDraft := by
  have hdimension : ∀ kind, (∃ entries, (T.groups kind).mapM (s.resolve T.prisonCode kind) =
      .ok entries) ↔ ∀ reference ∈ T.groups kind, s.rows.HasGroup T.prisonCode kind reference := by
    intro kind
    simp only [exists_mapM_eq_ok, exists_resolve_eq_ok]
  simp only [eligibilityOf, bind_eq_ok, pure_eq_ok]
  constructor
  · rintro ⟨_, locations, hlocations, categories, hcategories, incentives, hincentives, -⟩ kind
    refine (hdimension kind).mp ?_
    cases kind with
    | location => exact ⟨locations, hlocations⟩
    | category => exact ⟨categories, hcategories⟩
    | incentive => exact ⟨incentives, hincentives⟩
  · intro h
    obtain ⟨locations, hlocations⟩ := (hdimension .location).mpr (h .location)
    obtain ⟨categories, hcategories⟩ := (hdimension .category).mpr (h .category)
    obtain ⟨incentives, hincentives⟩ := (hdimension .incentive).mpr (h .incentive)
    exact ⟨_, locations, hlocations, categories, hcategories, incentives, hincentives, rfl⟩

theorem shapeOf_eq_ok {T : SessionTemplate} {shape : SessionShape} :
    s.shapeOf T = .ok shape ↔
      ∃ eligibility, s.eligibilityOf T = .ok eligibility ∧ ⟨T, eligibility⟩ = shape := by
  simp only [shapeOf, bind_eq_ok, pure_eq_ok]

/-- A template that has been compared with the stored ones has its groups. -/
theorem resolves_of_conflictsOf {T : SessionTemplate} {conflicts : List Reference}
    (h : s.conflictsOf T = .ok conflicts) : s.rows.Resolves T.toTemplateDraft := by
  obtain ⟨shape, hshape, -⟩ := bind_eq_ok.mp h
  obtain ⟨eligibility, heligibility, -⟩ := bind_eq_ok.mp hshape
  exact exists_eligibilityOf_eq_ok.mp ⟨eligibility, heligibility⟩

theorem not_uses_of_templatesUsingGroup {group : Reference}
    (hunused : s.templatesUsingGroup group = []) (reference : Reference) (T : SessionTemplate)
    (hT : s.rows.templates[reference]? = some T) : group ∉ T.groupReferences := by
  intro hmem
  have hvalue : T ∈ s.templates.values := Table.mem_values.mpr ⟨reference, hT⟩
  have huser : T.reference ∈ s.templatesUsingGroup group :=
    List.mem_map_of_mem (List.mem_filter.mpr ⟨hvalue, by simpa using hmem⟩)
  rw [hunused] at huser
  cases huser

end Store

namespace Desk

variable {d : Desk}

/-- What an action commits leaves the groups of every template found. -/
theorem grouped_of_writes (h : d.store.Sound) (hgrouped : d.store.rows.Grouped) {a : Action}
    {c : Commit} (hw : d.Writes a c) : (d.store.rows.applyCommit c).Grouped := by
  cases hadministers : a.administers with
  | false =>
    have hbooking := ofBooking_of_writes hw hadministers
    exact hgrouped.congr (groups_applyCommit hbooking)
      (templates_applyCommit fun r hr => r.no_template_of_ofBooking (hbooking r hr))
  | true =>
    cases hw with
    | createGroup named sized unused =>
      refine hgrouped.groupSaved fun old hold => ?_
      rw [(h.unused unused).group] at hold
      cases hold
    | @updateGroup reference name entries existing named sized stored kind =>
      refine hgrouped.groupSaved fun old hold => ?_
      have hkey : existing.reference = reference := h.keyed.groups reference existing stored
      change d.store.rows.groups[existing.reference]? = some old at hold
      rw [hkey] at hold
      cases hold.symm.trans stored
      exact ⟨kind, rfl⟩
    | deleteGroup stored unused =>
      exact hgrouped.groupDeleted (Store.not_uses_of_templatesUsingGroup unused)
    | createTemplate checked room unused compared =>
      exact hgrouped.templateSaved (Store.resolves_of_conflictsOf compared)
    | updateTemplate checked stored prison fits compared =>
      exact hgrouped.templateSaved (Store.resolves_of_conflictsOf compared)
    | setTemplateActive stored turned idle =>
      have hresolves := hgrouped _ _ stored
      exact hgrouped.templateSaved hresolves
    | deleteTemplate => exact hgrouped.templateDeleted _
    | reserve | change | amend | book | cancel | discard | expire => cases hadministers

theorem preserved_grouped : Preserved False (fun _ _ => True) (fun _ t => t.Grouped)
    (fun _ commits => (Store.ofCommits commits).rows.Grouped) :=
  preserved_of_rows (fun _ => trivial) (fun _ => grouped_empty)
    (fun h hgrouped _ hw => grouped_of_writes h.sound hgrouped hw)
    (fun _ hgrouped _ => hgrouped.first _) (fun _ _ h => h)

end Desk

end PrisonVisits
