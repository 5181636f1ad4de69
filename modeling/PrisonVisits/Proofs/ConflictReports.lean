import PrisonVisits.Proofs.CommonDates
import PrisonVisits.Proofs.CommonPrisoners
import PrisonVisits.Proofs.StoredNames
import PrisonVisits.Proofs.TimeOrder

/-! # Which templates conflict

Two templates are reported to conflict exactly if they can bring one prisoner into sessions of both
at once, so the report of either names the other or neither does. That rests on the checks of a
draft, which every stored template has passed: its times are in order, and its frequency is small
enough for the search for a common date. -/

namespace PrisonVisits

open Rows Table

/-! ## Stored templates have passed their checks -/

theorem TemplateDraft.bounds_of_check {t : TemplateDraft} (h : t.check = .ok ()) :
    t.startTime < t.endTime ∧ checkYear t.validFrom = .ok () ∧
      t.weeklyFrequency ≤ Limits.maxWeeklyFrequency := by
  unfold check at h
  obtain ⟨_, -, h⟩ := bind_eq_ok.mp h
  obtain ⟨_, -, h⟩ := bind_eq_ok.mp h
  obtain ⟨_, htimes, h⟩ := bind_eq_ok.mp h
  refine ⟨of_decide_eq_true (require_eq_ok.mp htimes), ?_⟩
  split at h
  · obtain ⟨_, -, h⟩ := bind_eq_ok.mp h
    obtain ⟨_, hyear, h⟩ := bind_eq_ok.mp h
    obtain ⟨_, -, h⟩ := bind_eq_ok.mp h
    obtain ⟨_, -, h⟩ := bind_eq_ok.mp h
    obtain ⟨_, hfrequency, -⟩ := bind_eq_ok.mp h
    exact ⟨hyear, of_decide_eq_true (require_eq_ok.mp hfrequency)⟩
  · obtain ⟨_, hyear, h⟩ := bind_eq_ok.mp h
    obtain ⟨_, -, h⟩ := bind_eq_ok.mp h
    obtain ⟨_, hfrequency, -⟩ := bind_eq_ok.mp h
    exact ⟨hyear, of_decide_eq_true (require_eq_ok.mp hfrequency)⟩

namespace Rows

/-- Every stored template passes the check of a draft. -/
def Checked (t : Rows) : Prop :=
  ∀ (reference : Reference) T, t.templates[reference]? = some T → T.toTemplateDraft.check = .ok ()

variable {t : Rows}

theorem checked_empty : Store.empty.rows.Checked := Table.All.empty

theorem Checked.templateSaved (h : t.Checked) {T : SessionTemplate}
    (hT : T.toTemplateDraft.check = .ok ()) : (t.apply (.templateSaved T)).Checked :=
  All.insert (p := fun S : SessionTemplate => S.toTemplateDraft.check = .ok ()) h hT _

theorem Checked.templateDeleted (h : t.Checked) (deleted : Reference) :
    (t.apply (.templateDeleted deleted)).Checked :=
  All.erase (p := fun S : SessionTemplate => S.toTemplateDraft.check = .ok ()) h deleted

theorem Checked.first (h : t.Checked) (n : Nat) : (t.first n).Checked := by
  intro reference T hT
  by_cases hn : 2 ≤ n
  · have htemplates : (t.first n).templates = t.templates := if_pos hn
    rw [htemplates] at hT
    exact h reference T hT
  · have hnone : (t.first n).templates = ∅ := if_neg hn
    simp [hnone] at hT

end Rows

namespace Desk

/-- What an action commits leaves every stored template checked. -/
theorem checked_of_writes {d : Desk} (hchecked : d.store.rows.Checked) {a : Action} {c : Commit}
    (hw : d.Writes a c) : (d.store.rows.applyCommit c).Checked := by
  cases hedits : a.editsTemplates with
  | false =>
    intro reference T hT
    rw [templates_applyCommit (no_template_of_writes hw hedits)] at hT
    exact hchecked reference T hT
  | true =>
    cases hw with
    | createTemplate checked | updateTemplate checked => exact hchecked.templateSaved checked
    | setTemplateActive stored =>
      have hcheck := hchecked _ _ stored
      exact hchecked.templateSaved hcheck
    | deleteTemplate => exact hchecked.templateDeleted _
    | createGroup | updateGroup | deleteGroup | reserve | change | amend | book | cancel | discard
    | expire => cases hedits

theorem preserved_checked : Preserved False (fun _ _ => True) (fun _ t => t.Checked)
    (fun _ commits => (Store.ofCommits commits).rows.Checked) :=
  preserved_of_rows (fun _ => trivial) (fun _ => checked_empty)
    (fun _ hchecked _ hw => checked_of_writes hchecked hw) (fun _ hchecked _ => hchecked.first _)
    (fun _ _ h => h)

end Desk

/-! ## Two templates -/

namespace SessionTemplate

variable {S T : SessionTemplate}

/-- Closed ranges of times share a time if each begins before the other ends. -/
theorem sharesTimes_iff (hS : S.startTime < S.endTime) (hT : T.startTime < T.endTime) :
    S.sharesTimes T = true ↔ ∃ time, (S.startTime ≤ time ∧ time ≤ S.endTime) ∧
      T.startTime ≤ time ∧ time ≤ T.endTime := by
  simp only [sharesTimes, Bool.and_eq_true, decide_eq_true_eq]
  constructor
  · intro h
    obtain ⟨hSbefore, hTbefore⟩ := h
    rcases le_total S.startTime T.startTime with hle | hle
    · exact ⟨T.startTime, ⟨hle, hTbefore⟩, le_rfl, hT.le⟩
    · exact ⟨S.startTime, ⟨le_rfl, hS.le⟩, hle, hSbefore⟩
  · intro h
    obtain ⟨time, ⟨hSstart, hSend⟩, hTstart, hTend⟩ := h
    exact ⟨hSstart.trans hTend, hTstart.trans hSend⟩

/-- A date of a template lies between its first and its last day. -/
theorem within_of_firesOn {date : Date} (h : T.schedule.firesOn date = true) :
    T.validFrom ≤ date ∧ date ≤ T.validTo.getD Date.last := by
  obtain ⟨first, hfirst, hle, hreaches, -⟩ := Schedule.firesOn_iff.mp h
  have hfrom := Schedule.le_firstDate hfirst
  refine ⟨hfrom.trans hle, ?_⟩
  have hends : T.schedule.validTo = T.validTo := rfl
  rw [Schedule.reaches, hends] at hreaches
  cases hlast : T.validTo with
  | none => exact date.le_last
  | some last =>
    rw [hlast] at hreaches
    exact of_decide_eq_true hreaches

theorem sharesDates_of_firesOn {date : Date} (hS : S.schedule.firesOn date = true)
    (hT : T.schedule.firesOn date = true) : S.sharesDates T = true := by
  obtain ⟨hSfrom, hSto⟩ := within_of_firesOn hS
  obtain ⟨hTfrom, hTto⟩ := within_of_firesOn hT
  simp only [sharesDates, Bool.and_eq_true, decide_eq_true_eq]
  exact ⟨hSfrom.trans hTto, hTfrom.trans hSto⟩

theorem meets_iff (hS : S.weeklyFrequency ≤ Limits.maxWeeklyFrequency)
    (hT : T.weeklyFrequency ≤ Limits.maxWeeklyFrequency) :
    S.schedule.meets T.schedule = true ↔
      ∃ date, S.schedule.firesOn date = true ∧ T.schedule.firesOn date = true :=
  Schedule.meets_iff (Schedule.lt_of_le_longestPeriod (Schedule.lcm_weeks_le hS hT))

end SessionTemplate

/-- Sessions of the two templates can need one prisoner at the same time. Ranges of times include
their ends. -/
structure SessionShape.Collides (a b : SessionShape) : Prop where
  prison : a.template.prisonCode = b.template.prisonCode
  time : ∃ time, (a.template.startTime ≤ time ∧ time ≤ a.template.endTime) ∧
    b.template.startTime ≤ time ∧ time ≤ b.template.endTime
  date : ∃ date, a.template.schedule.firesOn date = true ∧ b.template.schedule.firesOn date = true
  prisoner : ∃ p, a.eligibility.allows p = true ∧ b.eligibility.allows p = true

namespace SessionShape

variable {a b : SessionShape}

theorem Collides.symm (h : a.Collides b) : b.Collides a where
  prison := h.prison.symm
  time := h.time.imp fun _ h => h.symm
  date := h.date.imp fun _ h => h.symm
  prisoner := h.prisoner.imp fun _ h => h.symm

/-- Of the six conditions two follow from the others: templates with a common date have the same
weekday, and their dates overlap. -/
theorem conflicts_iff (ha : a.template.toTemplateDraft.check = .ok ())
    (hb : b.template.toTemplateDraft.check = .ok ()) (hollowA : ¬a.eligibility.Hollow)
    (hollowB : ¬b.eligibility.Hollow) : a.conflicts b = true ↔ a.Collides b := by
  obtain ⟨htimesA, -, hfrequencyA⟩ := TemplateDraft.bounds_of_check ha
  obtain ⟨htimesB, -, hfrequencyB⟩ := TemplateDraft.bounds_of_check hb
  simp only [conflicts, Bool.and_eq_true, beq_iff_eq,
    SessionTemplate.sharesTimes_iff htimesA htimesB,
    SessionTemplate.meets_iff hfrequencyA hfrequencyB, Eligibility.intersects_iff hollowA hollowB]
  constructor
  · intro h
    obtain ⟨⟨⟨⟨⟨hprison, -⟩, -⟩, htime⟩, hdate⟩, hprisoner⟩ := h
    exact ⟨hprison, htime, hdate, hprisoner⟩
  · intro h
    obtain ⟨date, hfiresA, hfiresB⟩ := h.date
    have hweekdayA : date.weekday = a.template.dayOfWeek := Schedule.weekday_of_firesOn hfiresA
    have hweekdayB : date.weekday = b.template.dayOfWeek := Schedule.weekday_of_firesOn hfiresB
    have hdates := SessionTemplate.sharesDates_of_firesOn hfiresA hfiresB
    exact ⟨⟨⟨⟨⟨h.prison, hweekdayA.symm.trans hweekdayB⟩, hdates⟩, h.time⟩, h.date⟩, h.prisoner⟩

end SessionShape

/-! ## Reports -/

namespace Store

variable {s : Store}

/-- A stored template is reported if it is another one and conflicts. -/
theorem Sound.mem_conflictsOf (h : s.Sound) {S T : SessionTemplate} {eS eT : Eligibility}
    (hS : s.eligibilityOf S = .ok eS) (hT : s.eligibilityOf T = .ok eT)
    (hstored : s.template? T.reference = some T) {conflicts : List Reference}
    (hconflicts : s.conflictsOf S = .ok conflicts) :
    T.reference ∈ conflicts ↔ T.reference ≠ S.reference ∧
      SessionShape.conflicts ⟨S, eS⟩ ⟨T, eT⟩ = true := by
  obtain ⟨shape, hshape, hrest⟩ := bind_eq_ok.mp hconflicts
  obtain ⟨existing, hexisting, hreport⟩ := bind_eq_ok.mp hrest
  obtain ⟨_, heS, rfl⟩ := shapeOf_eq_ok.mp hshape
  cases heS.symm.trans hS
  rw [← pure_eq_ok.mp hreport, Desk.mem_sortedReferences]
  simp only [SessionShape.conflictsAmong, List.mem_map, List.mem_filter, Bool.and_eq_true,
    bne_iff_ne, mem_of_mapM_eq_ok hexisting, h.mem_templatesForPrison]
  constructor
  · intro hmem
    obtain ⟨b, ⟨⟨U, ⟨hU, -⟩, hb⟩, hother, hconflict⟩, hreference⟩ := hmem
    obtain ⟨eU, heU, rfl⟩ := shapeOf_eq_ok.mp hb
    have hreference : U.reference = T.reference := hreference
    rw [hreference] at hU hother
    cases hU.symm.trans hstored
    cases heU.symm.trans hT
    exact ⟨hother, hconflict⟩
  · intro hconflict
    have hprison : T.prisonCode = S.prisonCode := by
      have hall := hconflict.2
      simp only [SessionShape.conflicts, Bool.and_eq_true, beq_iff_eq] at hall
      exact hall.1.1.1.1.1.symm
    exact ⟨⟨T, eT⟩, ⟨⟨T, ⟨hstored, hprison⟩, shapeOf_eq_ok.mpr ⟨eT, hT, rfl⟩⟩, hconflict⟩, rfl⟩

/-- What each of two templates asks of prisoners is known, and so are the conflicts of either; with
no dimension restricted to empty groups, the other one is among them exactly if the two collide. -/
def ReportsConflicts (s : Store) (first second : Reference) : Prop :=
  ∀ S T, s.template? first = some S → s.template? second = some T →
    ∃ eS eT forS forT, s.eligibilityOf S = .ok eS ∧ s.eligibilityOf T = .ok eT ∧
      s.conflictsOf S = .ok forS ∧ s.conflictsOf T = .ok forT ∧
      (¬eS.Hollow → ¬eT.Hollow → (second ∈ forS ↔ first ∈ forT) ∧
        (second ∈ forS ↔ SessionShape.Collides ⟨S, eS⟩ ⟨T, eT⟩))

theorem reportsConflicts (h : s.Sound) (hgrouped : s.rows.Grouped) (hchecked : s.rows.Checked)
    {first second : Reference} (hne : first ≠ second) : s.ReportsConflicts first second := by
  intro S T hS hT
  have hfirst : S.reference = first := h.keyed.templates first S hS
  have hsecond : T.reference = second := h.keyed.templates second T hT
  have hresolvesS := hgrouped first S hS
  have hresolvesT := hgrouped second T hT
  obtain ⟨eS, heS⟩ := exists_eligibilityOf_eq_ok.mpr hresolvesS
  obtain ⟨eT, heT⟩ := exists_eligibilityOf_eq_ok.mpr hresolvesT
  obtain ⟨forS, hforS⟩ := (exists_conflictsOf_eq_ok h hgrouped).mpr hresolvesS
  obtain ⟨forT, hforT⟩ := (exists_conflictsOf_eq_ok h hgrouped).mpr hresolvesT
  refine ⟨eS, eT, forS, forT, heS, heT, hforS, hforT, fun hollowS hollowT => ?_⟩
  subst hfirst hsecond
  have hcheckS := hchecked _ S hS
  have hcheckT := hchecked _ T hT
  have hreportS : T.reference ∈ forS ↔ SessionShape.Collides ⟨S, eS⟩ ⟨T, eT⟩ := by
    rw [h.mem_conflictsOf heS heT hT hforS, and_iff_right hne.symm]
    exact SessionShape.conflicts_iff hcheckS hcheckT hollowS hollowT
  have hreportT : S.reference ∈ forT ↔ SessionShape.Collides ⟨T, eT⟩ ⟨S, eS⟩ := by
    rw [h.mem_conflictsOf heT heS hS hforT, and_iff_right hne]
    exact SessionShape.conflicts_iff hcheckT hcheckS hollowT hollowS
  refine ⟨?_, hreportS⟩
  rw [hreportS, hreportT]
  exact ⟨.symm, .symm⟩

end Store

/-- All along every run from an empty journal, the conflicts that are reported between two stored
templates are the collisions, whichever of them is asked about. -/
theorem reportsConflicts_throughout (policy : BookingPolicy) (now : Moment)
    (prisoners : Std.ExtTreeMap String PrisonerContext) (references : ReferenceSource)
    (actions : List Action)
    (hrange : (Desk.openOn #[] policy now prisoners references).Throughout Desk.InRange actions) :
    (Desk.openOn #[] policy now prisoners references).Throughout
      (fun d => ∀ first second, first ≠ second → d.store.ReportsConflicts first second) actions := by
  have hgrouped := Desk.kept_throughout Desk.preserved_grouped hrange False.elim
  have hchecked := Desk.kept_throughout Desk.preserved_checked hrange False.elim
  exact (hgrouped.and hchecked).imp fun d h first second hne =>
    Store.reportsConflicts h.1.linked.sound h.1.live h.2.live hne

namespace Sample

/-- Behind template b of group a, template c begins when b ends, every second Monday. -/
def touching : List Action :=
  [.createGroup "HEI" "Lifers" lifers, .createTemplate { mondays with categoryGroups := ["a"] },
    .createTemplate { mondays with
      startTime := mondays.endTime
      endTime := time 15 (by decide)
      weeklyFrequency := 2 }]

theorem along_touching : desk.Along (Desk.AppendsAtMost 1000) touching := by
  refine ⟨⟨nofun, ?_, ?_⟩, ⟨nofun, ?_, ?_⟩, ⟨nofun, ?_, ?_⟩, trivial⟩
  all_goals decide +kernel

end Sample

/-- Template c is reported for b, so there is a prisoner whom they need at the same time. -/
theorem reportsConflicts_throughout_sample :
    Sample.desk.Throughout Desk.InRange Sample.touching ∧ "b" ≠ "c" ∧
      ∃ S T, (Sample.desk.run Sample.touching).store.template? "b" = some S ∧
        (Sample.desk.run Sample.touching).store.template? "c" = some T ∧
        SessionShape.Collides ⟨S, ⟨⟨[]⟩, ⟨[[.catB]]⟩, ⟨[]⟩⟩⟩ ⟨T, ⟨⟨[]⟩, ⟨[]⟩, ⟨[]⟩⟩⟩ := by
  have hrange := Desk.throughout_inRange (m := 0) (by decide) (by decide +kernel)
    Sample.along_touching (by decide)
  have hreports : (Sample.desk.run Sample.touching).store.ReportsConflicts "b" "c" :=
    (reportsConflicts_throughout Sample.policy _ _ Sample.letters Sample.touching
      hrange).last "b" "c" (by decide)
  have hb : ((Sample.desk.run Sample.touching).store.template? "b").map (fun S =>
      (((Sample.desk.run Sample.touching).store.eligibilityOf S).toOption,
        ((Sample.desk.run Sample.touching).store.conflictsOf S).toOption)) =
      some (some ⟨⟨[]⟩, ⟨[[.catB]]⟩, ⟨[]⟩⟩, some ["c"]) := by
    decide +kernel
  have hc : ((Sample.desk.run Sample.touching).store.template? "c").map (fun T =>
      ((Sample.desk.run Sample.touching).store.eligibilityOf T).toOption) =
      some (some ⟨⟨[]⟩, ⟨[]⟩, ⟨[]⟩⟩) := by
    decide +kernel
  obtain ⟨S, hS, hfactsS⟩ := Option.map_eq_some_iff.mp hb
  obtain ⟨T, hT, hfactsT⟩ := Option.map_eq_some_iff.mp hc
  obtain ⟨eS, eT, forS, forT, heS, heT, hforS, -, hexact⟩ := hreports S T hS hT
  simp only [heS, hforS, heT, Except.toOption, Prod.mk.injEq, Option.some.injEq] at hfactsS hfactsT
  obtain ⟨rfl, rfl⟩ := hfactsS
  subst hfactsT
  have hcollides := (hexact (by simp [Eligibility.Hollow, Restriction.Hollow])
    (by simp [Eligibility.Hollow, Restriction.Hollow])).2.mp (List.mem_singleton_self _)
  exact ⟨hrange, by decide, S, T, hS, hT, hcollides⟩

end PrisonVisits
