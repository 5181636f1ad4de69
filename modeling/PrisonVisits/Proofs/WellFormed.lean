import PrisonVisits.Proofs.ConflictReports
import PrisonVisits.Proofs.Lookups
import PrisonVisits.Proofs.Refusals
import PrisonVisits.Proofs.SeatCounts

/-! # Stored rows keep to their limits

Each limit is checked where rows are made or changed: a draft of a template before anything else,
the number of templates when one is made, the number of people whenever some are supplied. So every
stored row keeps to its limits, whatever was refused on the way, and what is calculated from stored
rows never leaves its range. -/

namespace PrisonVisits

open Rows Table

/-! ## Groups and applications -/

/-- What the record saves keeps to the limit on entries or on people. -/
def Record.Sized : Record → Prop
  | groupSaved group => checkEntries group.entries = .ok ()
  | applicationSaved a => checkCounts a.visitors a.support = .ok ()
  | _ => True

theorem Record.sized_of_ends {r : Record} (h : r.endsBooking = true) : r.Sized := by
  cases r with
  | applicationDeleted | visitSaved | visitDeleted | audit => trivial
  | groupSaved | groupDeleted | templateSaved | templateDeleted | applicationSaved => cases h

namespace Rows

variable {t t' : Rows}

/-- Groups have no more entries, and applications no more people, than they may. -/
structure Sized (t : Rows) : Prop where
  groups : Table.All (fun group => checkEntries group.entries = .ok ()) t.groups
  applications : Table.All (fun a => checkCounts a.visitors a.support = .ok ()) t.applications

theorem Sized.apply (h : t.Sized) {r : Record} (hr : r.Sized) : (t.apply r).Sized := by
  cases r with
  | groupSaved group => exact ⟨h.groups.insert hr _, h.applications⟩
  | groupDeleted reference => exact ⟨h.groups.erase _, h.applications⟩
  | applicationSaved a => exact ⟨h.groups, h.applications.insert hr _⟩
  | applicationDeleted reference => exact ⟨h.groups, h.applications.erase _⟩
  | templateSaved | templateDeleted | visitSaved | visitDeleted | audit => exact ⟨h.1, h.2⟩

theorem Sized.applyCommit (h : t.Sized) {c : Commit} (hc : ∀ r ∈ c, r.Sized) :
    (t.applyCommit c).Sized := by
  induction c generalizing t with
  | nil => exact h
  | cons r c ih =>
    obtain ⟨hr, hrest⟩ := List.forall_mem_cons.mp hc
    exact ih (h.apply hr) hrest

theorem Sized.first (h : t.Sized) (n : Nat) : (t.first n).Sized := by
  unfold Rows.first
  constructor
  · dsimp only
    split
    · exact h.groups
    · exact .empty
  · dsimp only
    split
    · exact h.applications
    · exact .empty

/-! ## Templates of a prison -/

/-- No prison has too many templates. -/
def Uncrowded (t : Rows) : Prop :=
  ∀ prisonCode, (t.templates.values.countP fun T => T.prisonCode == prisonCode) ≤
    Limits.maxTemplatesPerPrison

/-- Every template stands where one of its prison stood before. -/
theorem Uncrowded.of_stored (h : t.Uncrowded) (hkeyed : t.Keyed) (hkeyed' : t'.Keyed)
    (hstored : ∀ (reference : Reference) T, t'.templates[reference]? = some T →
      ∃ S, t.templates[reference]? = some S ∧ S.prisonCode = T.prisonCode) : t'.Uncrowded := by
  intro prisonCode
  refine Nat.le_trans (hkeyed.templates.countP_le hkeyed'.templates [] ?_) (h prisonCode)
  intro reference T hT hprison
  obtain ⟨S, hS, hsame⟩ := hstored reference T hT
  exact .inr ⟨S, hS, by rwa [hsame]⟩

theorem Uncrowded.first (h : t.Uncrowded) (hkeyed : t.Keyed) (n : Nat) :
    (t.first n).Uncrowded := by
  refine h.of_stored hkeyed (hkeyed.first n) fun reference T hT => ⟨T, ?_, rfl⟩
  simp only [Rows.first] at hT
  split at hT
  · exact hT
  · simp at hT

/-- A template is saved in the place of one of its prison. -/
theorem Uncrowded.templateKept (h : t.Uncrowded) (hkeyed : t.Keyed) {S T : SessionTemplate}
    (hS : t.templates[T.reference]? = some S) (hprison : S.prisonCode = T.prisonCode) :
    (t.apply (.templateSaved T)).Uncrowded := by
  refine h.of_stored hkeyed (hkeyed.apply _) fun reference U hU => ?_
  simp only [Rows.apply, getElem?_insert] at hU
  split at hU
  · next hsame =>
    cases hU
    exact ⟨S, hsame ▸ hS, hprison⟩
  · exact ⟨U, hU, rfl⟩

theorem Uncrowded.templateDeleted (h : t.Uncrowded) (hkeyed : t.Keyed) (deleted : Reference) :
    (t.apply (.templateDeleted deleted)).Uncrowded := by
  refine h.of_stored hkeyed (hkeyed.apply _) fun reference U hU => ⟨U, ?_, rfl⟩
  simp only [Rows.apply, getElem?_erase] at hU
  split at hU
  · cases hU
  · exact hU

theorem Uncrowded.templateAdded (h : t.Uncrowded) (hkeyed : t.Keyed) {T : SessionTemplate}
    (hroom : (t.templates.values.countP fun S => S.prisonCode == T.prisonCode) <
      Limits.maxTemplatesPerPrison) : (t.apply (.templateSaved T)).Uncrowded := by
  have hkeyed' := hkeyed.templates.insert T
  have hold : ∀ (reference : Reference) S,
      (t.templates.insert T.reference T)[reference]? = some S → S = T ∧ reference = T.reference ∨
        t.templates[reference]? = some S := by
    intro reference S hS
    rw [getElem?_insert] at hS
    split at hS
    · next hsame => exact .inl ⟨(Option.some.inj hS).symm, hsame.symm⟩
    · exact .inr hS
  intro prisonCode
  by_cases hprison : T.prisonCode = prisonCode
  · subst hprison
    refine Nat.le_trans (hkeyed.templates.countP_le hkeyed' [T.reference] ?_) hroom
    intro reference S hS hp
    rcases hold reference S hS with ⟨-, rfl⟩ | hstored
    · exact .inl (List.mem_singleton_self _)
    · exact .inr ⟨S, hstored, hp⟩
  · refine Nat.le_trans (hkeyed.templates.countP_le hkeyed' [] ?_) (h prisonCode)
    intro reference S hS hp
    rcases hold reference S hS with ⟨rfl, -⟩ | hstored
    · exact absurd (eq_of_beq hp) hprison
    · exact .inr ⟨S, hstored, hp⟩

end Rows

/-- The templates that the index names are counted. -/
theorem Store.Sound.templateCount_eq_countP {s : Store} (h : s.Sound) (prisonCode : String) :
    s.templateCount prisonCode =
      s.templates.values.countP fun T => T.prisonCode == prisonCode := by
  rw [h.templateCount_eq, List.countP_eq_length_filter]
  have hkeyed : Table.Keyed SessionTemplate.reference s.templates := h.keyed.templates
  refine List.Perm.length_eq ((List.perm_ext_iff_of_nodup (h.nodup_templatesForPrison prisonCode)
    (hkeyed.ascending_values.sublist List.filter_sublist).nodup).mpr fun T => ?_)
  rw [h.mem_templatesForPrison, List.mem_filter, hkeyed.mem_values, beq_iff_eq]
  rfl

/-! ## Windows -/

/-- The window ends behind its start, on the same day. -/
structure TimeWindow.WithinDay (w : TimeWindow) : Prop where
  ordered : w.start < w.stop
  sameDay : w.start.date = w.stop.date

theorem SessionTemplate.withinDay {T : SessionTemplate} (h : T.toTemplateDraft.check = .ok ())
    (date : Date) : (T.occurrence date).window.WithinDay :=
  ⟨.inr ⟨rfl, (TemplateDraft.bounds_of_check h).1⟩, rfl⟩

/-! ## One action -/

/-- Every row keeps to its limits. -/
structure Rows.WithinLimits (t : Rows) : Prop where
  checked : t.Checked
  uncrowded : t.Uncrowded
  sized : t.Sized
  windows : ∀ v, t.HasVisit v → v.window.WithinDay

theorem Rows.withinLimits_empty : Store.empty.rows.WithinLimits where
  checked := checked_empty
  uncrowded := fun _ => Nat.zero_le _
  sized := ⟨.empty, .empty⟩
  windows := fun v hv => absurd hv (not_hasVisit_empty v)

theorem Rows.WithinLimits.first {t : Rows} (h : t.WithinLimits) (hkeyed : t.Keyed) (n : Nat) :
    (t.first n).WithinLimits where
  checked := h.checked.first n
  uncrowded := h.uncrowded.first hkeyed n
  sized := h.sized.first n
  windows := fun v hv => h.windows v hv.of_first

namespace Desk

variable {d : Desk} {a : Action} {c : Commit}

/-- Groups and applications are checked before they are saved; an amendment checks the people as it
leaves them. -/
theorem sized_of_writes (h : d.store.rows.Sized) (hw : d.Writes a c) : ∀ r ∈ c, r.Sized := by
  cases hw with
  | createGroup named sized | updateGroup named sized => simpa [Record.Sized] using sized
  | deleteGroup | createTemplate | updateTemplate | setTemplateActive | deleteTemplate =>
    simp [Record.Sized]
  | reserve counts | change counts =>
    simpa [start, Application.audit, Record.Sized, ReserveRequest.application,
      ChangeRequest.application] using counts
  | @amend reference m existing placed draft moved stored incomplete drafted counts placing =>
    have hpeople : checkCounts placed.visitors placed.support = .ok () := by
      rcases placeAmended_eq_ok placing with ⟨-, rfl, -⟩ | ⟨-, context, T, -, -, rfl, -⟩
      · exact counts
      · exact counts
    simpa [Application.audit, Record.Sized, Application.touched] using hpeople
  | @book reference actionedBy existing draft stored =>
    have hends := ends_supersede (d.store.bookedVisit? existing.bookingReference) actionedBy d.now
    have hpeople := h.applications reference existing stored
    refine List.forall_mem_append.mpr ⟨fun r hr => r.sized_of_ends (hends r hr), ?_⟩
    simpa [Application.bookedAudit, Record.Sized, Application.complete] using hpeople
  | cancel => exact fun r hr => r.sized_of_ends (ends_cancelRecords d _ _ _ r hr)
  | discard | expire => exact fun r hr => r.sized_of_ends (ends_discardRecords _ _ _ _ r hr)

/-- A new template is counted first; a changed one stays with its prison. -/
theorem uncrowded_of_writes (h : d.store.Linked) (huncrowded : d.store.rows.Uncrowded)
    (hw : d.Writes a c) : (d.store.rows.applyCommit c).Uncrowded := by
  have hkeyed := h.sound.keyed
  cases hedits : a.editsTemplates with
  | false =>
    refine huncrowded.of_stored hkeyed (hkeyed.applyCommit c) fun reference T hT => ⟨T, ?_, rfl⟩
    rwa [templates_applyCommit (no_template_of_writes hw hedits)] at hT
  | true =>
    cases hw with
    | @createTemplate draft reference conflicts checked room =>
      rw [h.sound.templateCount_eq_countP] at room
      exact huncrowded.templateAdded hkeyed room
    | @updateTemplate reference draft existing conflicts checked stored prison =>
      have hreference : existing.reference = reference := hkeyed.templates reference existing stored
      exact huncrowded.templateKept hkeyed (hreference ▸ stored) prison
    | @setTemplateActive reference active template stored =>
      have hreference : template.reference = reference := hkeyed.templates reference template stored
      refine huncrowded.templateKept (S := template) hkeyed ?_ rfl
      rw [← hreference] at stored
      exact stored
    | deleteTemplate => exact huncrowded.templateDeleted hkeyed _
    | createGroup | updateGroup | deleteGroup | reserve | change | amend | book | cancel | discard
    | expire => cases hedits

theorem withinLimits_of_writes (h : d.store.Linked) (hlimits : d.store.rows.WithinLimits)
    (hw : d.Writes a c) : (d.store.rows.applyCommit c).WithinLimits where
  checked := checked_of_writes hlimits.checked hw
  uncrowded := uncrowded_of_writes h hlimits.uncrowded hw
  sized := hlimits.sized.applyCommit (sized_of_writes hlimits.sized hw)
  windows := windows_of_writes h hlimits.windows
    (fun reference T date hT => T.withinDay (hlimits.checked reference T hT) date) hw

theorem preserved_withinLimits : Preserved False (fun _ _ => True) (fun _ t => t.WithinLimits)
    (fun _ commits => (Store.ofCommits commits).rows.WithinLimits) :=
  preserved_of_rows (fun _ => trivial) (fun _ => withinLimits_empty)
    (fun h hlimits _ hw => withinLimits_of_writes h hlimits hw)
    (fun hkeyed hlimits _ => hlimits.first hkeyed _) (fun _ _ h => h)

end Desk

/-! ## What calculations rest on -/

/-- The era of a day begins no later than its year. -/
theorem Civil.era_le_year (n : Int) : (n + 719468) / 146097 * 400 ≤ (ofDayNumber n).year := by
  simp only [ofDayNumber, ofDayOfYear]
  split
  · exact Int.le_add_of_nonneg_right (Int.natCast_nonneg _)
  · dsimp only
    omega

/-- A week behind a day of a supported year the calendar still goes on. -/
theorem Schedule.exists_firstDate {s : Schedule} (h : checkYear s.validFrom = .ok ()) :
    ∃ first, s.firstDate = some first := by
  have hyear : s.validFrom.civil.year ≤ 9999 := by
    have hyears := require_eq_ok.mp h
    rw [Bool.and_eq_true, decide_eq_true_eq, decide_eq_true_eq] at hyears
    exact hyears.2
  have hera := Civil.era_le_year s.validFrom.dayNumber
  have hlow := s.validFrom.first_le
  have hlate : s.validFrom.dayNumber < 25 * 146097 := by
    rw [Date.civil] at hyear
    omega
  have hfirst : Date.firstDay ≤ s.validFrom.dayNumber +
      ((s.dayOfWeek.index : Int) - s.validFrom.weekday.index) % 7 := by
    omega
  have hlast : s.validFrom.dayNumber +
      ((s.dayOfWeek.index : Int) - s.validFrom.weekday.index) % 7 ≤ Date.lastDay := by
    have hend : 25 * 146097 + 7 ≤ Date.lastDay := by decide
    omega
  exact ⟨⟨_, hfirst, hlast⟩, Date.addDays?_eq_some.mpr rfl⟩

/-- The refusal names a limit. -/
def Refusal.namesLimit : Refusal → Bool
  | .limitExceeded _ => true
  | _ => false

/-- The people of a stored application are few enough, so counting them again refuses nothing. -/
theorem Desk.avoids_namesLimit_planBook {d : Desk} (h : d.store.rows.Sized) (reference : Reference)
    (actionedBy : String) : Avoids Refusal.namesLimit (d.planBook reference actionedBy) := by
  refine (avoids_found rfl _).bind fun existing hstored => ?_
  have hpeople := h.applications reference existing (found_eq_ok.mp hstored)
  have hcounts : Avoids Refusal.namesLimit (checkCounts existing.visitors existing.support) := by
    rw [hpeople]
    exact avoids_ok ()
  refine (avoids_require rfl _).bind fun _ _ => ?_
  refine (Application.avoids_checkBookable (fun _ => rfl) hcounts).bind fun _ _ => ?_
  refine (avoids_found rfl _).bind fun draft _ => ?_
  refine (avoids_require rfl _).bind fun _ _ => ?_
  exact (d.avoids_confirmStillApplies (fun _ _ => rfl) (fun _ => rfl) (fun _ => rfl)
    (fun _ _ => rfl) existing).bind fun _ _ => avoids_ok _

/-! ## Runs -/

/-- Every stored row keeps to the limits that were checked on its way into the store. -/
structure Store.WellFormed (s : Store) : Prop where
  checked : ∀ reference T, s.template? reference = some T → T.toTemplateDraft.check = .ok ()
  templates : ∀ prisonCode, (s.templates.values.countP fun T => T.prisonCode == prisonCode) ≤
    Limits.maxTemplatesPerPrison
  entries : ∀ reference group, s.group? reference = some group →
    group.entries.size ≤ Limits.maxEntriesPerGroup
  people : ∀ reference a, s.application? reference = some a →
    checkCounts a.visitors a.support = .ok ()
  windows : ∀ id v, s.visit? id = some v →
    v.window.start < v.window.stop ∧ v.window.start.date = v.window.stop.date

/-- What the desk calculates stays in range: every stored template has a first date, the common
period of any two can be counted, and a session begins before it ends, be it of a stored template or
of a draft that passes its check. No booking is refused for a limit. -/
structure Desk.InBounds (d : Desk) : Prop where
  firstDates : ∀ reference T, d.store.template? reference = some T →
    ∃ first, T.schedule.firstDate = some first
  periods : ∀ first second S T, d.store.template? first = some S →
    d.store.template? second = some T →
    7 * Nat.lcm S.schedule.weeks T.schedule.weeks ≤ Schedule.longestPeriod
  sessions : ∀ reference T date, d.store.template? reference = some T →
    (T.occurrence date).window.start < (T.occurrence date).window.stop
  drafts : ∀ reference draft active date, TemplateDraft.check draft = .ok () →
    ((SessionTemplate.ofDraft reference draft active).occurrence date).window.start <
      ((SessionTemplate.ofDraft reference draft active).occurrence date).window.stop
  booking : ∀ reference actionedBy excess,
    (d.book reference actionedBy).1 ≠ .error (.limitExceeded excess)

namespace Desk

variable {d : Desk}

theorem wellFormed (h : d.store.Linked) (hlimits : d.store.rows.WithinLimits) :
    d.store.WellFormed where
  checked := hlimits.checked
  templates := hlimits.uncrowded
  entries := fun reference group hgroup =>
    of_decide_eq_true (require_eq_ok.mp (hlimits.sized.groups reference group hgroup))
  people := hlimits.sized.applications
  windows := by
    intro id v hv
    have hid : v.id = id := h.sound.keyed.visits id v hv
    obtain ⟨hordered, hday⟩ := hlimits.windows v (by rw [HasVisit, hid]; exact hv)
    exact ⟨hordered, hday⟩

theorem inBounds (h : d.store.rows.WithinLimits) : d.InBounds where
  firstDates := fun reference T hT =>
    Schedule.exists_firstDate (TemplateDraft.bounds_of_check (h.checked reference T hT)).2.1
  periods := by
    intro first second S T hS hT
    obtain ⟨-, -, hfirst⟩ := TemplateDraft.bounds_of_check (h.checked first S hS)
    obtain ⟨-, -, hsecond⟩ := TemplateDraft.bounds_of_check (h.checked second T hT)
    exact Schedule.lcm_weeks_le (a := S.schedule) (b := T.schedule) hfirst hsecond
  sessions := fun reference T date hT => (T.withinDay (h.checked reference T hT) date).ordered
  drafts := fun reference draft active date hcheck =>
    (SessionTemplate.withinDay (T := .ofDraft reference draft active) hcheck date).ordered
  booking := by
    intro reference actionedBy excess hrefused
    cases avoids_book (avoids_namesLimit_planBook h.sized reference actionedBy) _ hrefused

/-- All along every run from an empty journal the store is well-formed, and what the desk calculates
stays in range. -/
theorem wellFormed_throughout (policy : BookingPolicy) (now : Moment)
    (prisoners : Std.ExtTreeMap String PrisonerContext) (references : ReferenceSource)
    (actions : List Action)
    (hrange : (openOn #[] policy now prisoners references).Throughout InRange actions) :
    (openOn #[] policy now prisoners references).Throughout
      (fun d => d.store.WellFormed ∧ d.InBounds) actions :=
  (kept_throughout preserved_withinLimits hrange False.elim).imp fun _ h =>
    ⟨wellFormed h.linked h.live, inBounds h.live⟩

/-- Application c keeps to the limits on people, and template a has a first date. -/
theorem wellFormed_throughout_sample :
    Sample.desk.Throughout InRange Sample.actions ∧
      ∃ T a, (Sample.desk.run Sample.actions).store.template? "a" = some T ∧
        (Sample.desk.run Sample.actions).store.application? "c" = some a ∧
        (∃ first, T.schedule.firstDate = some first) ∧
        checkCounts a.visitors a.support = .ok () := by
  obtain ⟨hformed, hbounds⟩ := (wellFormed_throughout Sample.policy _ _ Sample.letters
    Sample.actions Sample.inRange_actions).last
  obtain ⟨T, hT⟩ := Option.isSome_iff_exists.mp
    (show ((Sample.desk.run Sample.actions).store.template? "a").isSome = true by decide +kernel)
  obtain ⟨a, ha⟩ := Option.isSome_iff_exists.mp
    (show ((Sample.desk.run Sample.actions).store.application? "c").isSome = true by decide +kernel)
  exact ⟨Sample.inRange_actions, T, a, hT, ha, hbounds.firstDates "a" T hT,
    hformed.people "c" a ha⟩

end Desk

end PrisonVisits
