import PrisonVisits.Proofs.GroupRefusals
import PrisonVisits.Proofs.Pairing

/-! # What is named is stored

Templates name groups; visits and applications name templates. A group is not deleted while a
template names it, and a template not while a visit does, be it cancelled. Applications are not
looked at then: that their templates stay is owed to the visits that back them, and so it takes
journals that are read to their ends. -/

namespace PrisonVisits

open Rows Table

namespace Rows

/-- The template of every visit is stored. -/
def Named (t : Rows) : Prop :=
  ∀ v, t.HasVisit v → ∃ T, t.templates[v.sessionTemplateReference]? = some T

variable {t t' : Rows}

theorem Named.templateSaved (h : t.Named) (T : SessionTemplate) :
    (t.apply (.templateSaved T)).Named := by
  intro v hv
  obtain ⟨S, hS⟩ := h v hv
  simp only [apply, getElem?_insert]
  split
  · exact ⟨T, rfl⟩
  · exact ⟨S, hS⟩

theorem Named.templateDeleted (h : t.Named) {reference : Reference}
    (hunused : ∀ v, t.HasVisit v → v.sessionTemplateReference ≠ reference) :
    (t.apply (.templateDeleted reference)).Named := by
  intro v hv
  obtain ⟨S, hS⟩ := h v hv
  simp only [apply, getElem?_erase]
  rw [if_neg (hunused v hv).symm]
  exact ⟨S, hS⟩

/-- The first tables of a snapshot hold all visits and templates, or no visits. -/
theorem Named.first (h : t.Named) (n : Nat) : (t.first n).Named := by
  intro v hv
  by_cases hn : 4 ≤ n
  · have htemplates : (t.first n).templates = t.templates := if_pos (by omega)
    rw [htemplates]
    exact h v hv.of_first
  · have hnone : (t.first n).visits = ∅ := if_neg hn
    simp [HasVisit, hnone] at hv

end Rows

namespace Desk

variable {d : Desk}

theorem named_of_reseats (h : d.store.Sound) (hnamed : d.store.rows.Named) {a : Action} {c : Commit}
    (hc : d.Reseats a c) : (d.store.rows.applyCommit c).Named := by
  have hstands : ∀ v, d.store.rows.Stands v →
      ∃ T, d.store.rows.templates[v.sessionTemplateReference]? = some T := by
    rintro v ⟨w, hw, -, hsits⟩
    rw [hsits.template]
    exact hnamed w hw
  intro v hv
  cases hc with
  | stays templates others =>
    rw [templates]
    exact hstands v (others v hv)
  | @takes templates w T context slot takes others =>
    rw [templates]
    rcases others v hv with rfl | hstood
    · have hkey : T.reference = slot.template := h.keyed.templates _ T takes.admits.template
      rw [takes.template, hkey]
      exact ⟨T, takes.admits.template⟩
    · exact hstands v hstood

/-- What an action commits leaves the template of every visit stored. -/
theorem named_of_writes (h : d.store.Linked) (hnamed : d.store.rows.Named) {a : Action} {c : Commit}
    (hw : d.Writes a c) : (d.store.rows.applyCommit c).Named := by
  cases hedits : a.editsTemplates with
  | false => exact named_of_reseats h.sound hnamed (reseats_of_writes h hw hedits)
  | true =>
    cases hw with
    | createTemplate | updateTemplate | setTemplateActive => exact hnamed.templateSaved _
    | deleteTemplate stored inactive unused =>
      refine hnamed.templateDeleted fun v hv hsame => ?_
      have hmem := h.sound.mem_visitsForTemplate.mpr ⟨hv, hsame⟩
      rw [unused] at hmem
      cases hmem
    | createGroup | updateGroup | deleteGroup | reserve | change | amend | book | cancel | discard
    | expire => cases hedits

theorem preserved_named : Preserved False (fun _ _ => True) (fun _ t => t.Named)
    (fun _ commits => (Store.ofCommits commits).rows.Named) :=
  preserved_of_rows (fun _ => trivial) (fun _ v hv => absurd hv (not_hasVisit_empty v))
    (fun h hnamed _ hw => named_of_writes h hnamed hw) (fun _ hnamed _ => hnamed.first _)
    (fun _ _ h => h)

/-- What templates and visits name is stored, and requests find it. -/
structure FindsNames (d : Desk) : Prop where
  group : ∀ (reference : Reference) T, d.store.template? reference = some T →
    ∀ kind, ∀ group ∈ T.groups kind, ∃ g, d.store.group? group = some g ∧ g.entries.kind = kind ∧
      g.prisonCode = T.prisonCode
  template : ∀ (id : UInt64) v, d.store.visit? id = some v →
    ∃ T, d.store.template? v.sessionTemplateReference = some T
  eligibility : ∀ (reference : Reference) T, d.store.template? reference = some T →
    ∃ eligibility, d.store.eligibilityOf T = .ok eligibility
  /-- A template that is not stored, or not so, can only fail for groups of its own. -/
  conflicts : ∀ T, (∃ eligibility, d.store.eligibilityOf T = .ok eligibility) →
    ∃ conflicts, d.store.conflictsOf T = .ok conflicts
  sessions : ∀ q, SparesGroups (d.sessions q)
  checkMove : ∀ source target, SparesGroups (d.store.checkMove source target)
  reserve : ∀ r, SparesGroups (d.reserve r).1
  change : ∀ r, SparesGroups (d.change r).1
  amend : ∀ reference m, SparesGroups (d.amend reference m).1
  book : ∀ reference actionedBy, SparesGroups (d.book reference actionedBy).1

theorem findsNames (h : d.store.Sound) (hgrouped : d.store.rows.Grouped)
    (hnamed : d.store.rows.Named) : d.FindsNames where
  group := hgrouped
  template := by
    intro id v hv
    refine hnamed v ?_
    rw [HasVisit, h.keyed.visits id v hv]
    exact hv
  eligibility := fun reference T hT =>
    Store.exists_eligibilityOf_eq_ok.mpr (hgrouped reference T hT)
  conflicts := fun T hT =>
    (Store.exists_conflictsOf_eq_ok h hgrouped).mpr (Store.exists_eligibilityOf_eq_ok.mp hT)
  sessions := sparesGroups_sessions h hgrouped
  checkMove := Store.sparesGroups_checkMove hgrouped
  reserve := sparesGroups_reserve hgrouped
  change := sparesGroups_change hgrouped
  amend := sparesGroups_amend hgrouped
  book := sparesGroups_book hgrouped

/-- The template of every application is stored. -/
def FindsApplied (d : Desk) : Prop :=
  ∀ (reference : Reference) (a : Application), d.store.application? reference = some a →
    ∃ T, d.store.template? a.sessionTemplateReference = some T

/-- All along every run from an empty journal, the groups that templates name and the templates that
visits name are stored, and no request fails for want of a group; where journals are read to their
ends, the templates that applications name are stored too. -/
theorem findsNames_throughout (policy : BookingPolicy) (now : Moment)
    (prisoners : Std.ExtTreeMap String PrisonerContext) (references : ReferenceSource)
    (actions : List Action)
    (hrange : (openOn #[] policy now prisoners references).Throughout InRange actions) :
    (openOn #[] policy now prisoners references).Throughout FindsNames actions ∧
      ((openOn #[] policy now prisoners references).Throughout ReadToEnd actions →
        (openOn #[] policy now prisoners references).Throughout FindsApplied actions) := by
  have hgrouped := kept_throughout preserved_grouped hrange False.elim
  have hnamed := kept_throughout preserved_named hrange False.elim
  refine ⟨(hgrouped.and hnamed).imp fun d h => findsNames h.1.linked.sound h.1.live h.2.live,
    fun hread => ?_⟩
  have hbacked := kept_throughout preserved_backed hrange fun _ => hread
  refine (hnamed.and hbacked).imp fun d h reference a ha => ?_
  obtain ⟨v, hv, hbacks⟩ := h.2.live reference a ha
  obtain ⟨T, hT⟩ := h.1.live v hv
  exact ⟨T, by rw [← hbacks.template]; exact hT⟩

end Desk

namespace Sample

def lifers : GroupEntries := .categories [.catB]

/-- Group a restricts template b. -/
def grouped : List Action :=
  [.createGroup "HEI" "Lifers" lifers, .createTemplate { mondays with categoryGroups := ["a"] },
    .setPrisoner ⟨"A0001AA", "HEI", some .catB, none, none⟩,
    .reserve { reservation with slot := ⟨"b", monday, .openVisit⟩ }]

theorem along_grouped : desk.Along (Desk.AppendsAtMost 1000) grouped := by
  refine ⟨⟨nofun, ?_, ?_⟩, ⟨nofun, ?_, ?_⟩, ⟨nofun, ?_, ?_⟩, ⟨nofun, ?_, ?_⟩, trivial⟩
  all_goals decide +kernel

end Sample

/-- Application d names template b, which names group a. -/
theorem Desk.findsNames_throughout_sample :
    Sample.desk.Throughout InRange Sample.grouped ∧
      ∃ a T g, (Sample.desk.run Sample.grouped).store.application? "d" = some a ∧
        (Sample.desk.run Sample.grouped).store.template? a.sessionTemplateReference = some T ∧
        T.groups .category = ["a"] ∧ (Sample.desk.run Sample.grouped).store.group? "a" = some g ∧
        g.entries.kind = .category ∧ g.prisonCode = T.prisonCode := by
  have hrange := Desk.throughout_inRange (m := 0) (by decide) (by decide +kernel)
    Sample.along_grouped (by decide)
  have hread := Desk.throughout_readToEnd [] rfl (by simp) Sample.along_grouped (by decide)
  obtain ⟨hnames, happlied⟩ := findsNames_throughout Sample.policy _ _ Sample.letters
    Sample.grouped hrange
  have hstored : ((Sample.desk.run Sample.grouped).store.application? "d").map
      (·.sessionTemplateReference) = some "b" := by
    decide +kernel
  obtain ⟨a, ha, hb⟩ := Option.map_eq_some_iff.mp hstored
  have hfinds : (Sample.desk.run Sample.grouped).FindsApplied := (happlied hread).last
  obtain ⟨T, hT⟩ := hfinds "d" a ha
  have hgroups : ((Sample.desk.run Sample.grouped).store.template? "b").map
      (·.groups .category) = some ["a"] := by
    decide +kernel
  have hnamed : T.groups .category = ["a"] := by
    rw [← hb, hT] at hgroups
    exact Option.some.inj hgroups
  obtain ⟨g, hg, hkind, hprison⟩ := hnames.last.group _ T hT .category "a"
    (by rw [hnamed]; exact List.mem_singleton_self _)
  exact ⟨hrange, a, T, g, ha, hT, hnamed, hg, hkind, hprison⟩

end PrisonVisits
