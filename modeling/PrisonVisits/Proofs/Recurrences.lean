import Mathlib.Data.List.Nodup
import PrisonVisits.Proofs.CommonDates

/-! # What a recurrence stands for

A schedule with a date every week fires on every date of its weekday from its start to its last day.
The first one is in the calendar as soon as any of them is, so also in the last week, in which some
weekdays do not come again. The seven schedules of a daily recurrence share the days of validity out
by weekday, which leaves no day out and gives none twice. -/

namespace PrisonVisits

namespace Schedule

variable {s : Schedule} {date : Date}

/-- The first date of a schedule is whole weeks before every date of its weekday. -/
theorem exists_firstDate_of_weekday (hstart : s.validFrom ≤ date)
    (hweekday : date.weekday = s.dayOfWeek) :
    ∃ first, s.firstDate = some first ∧ first ≤ date ∧ (7 : Int) ∣ first.daysUntil date := by
  have hstart : s.validFrom.dayNumber ≤ date.dayNumber := hstart
  have hfrom := s.validFrom.index_weekday
  have hdate := date.index_weekday
  rw [hweekday] at hdate
  generalize hahead : ((s.dayOfWeek.index : Int) - s.validFrom.weekday.index) % 7 = ahead
  have hreach : s.validFrom.dayNumber + ahead ≤ date.dayNumber := by omega
  have hlow := s.validFrom.first_le
  have hhigh := date.le_last
  refine ⟨⟨s.validFrom.dayNumber + ahead, by omega, by omega⟩, ?_, hreach, ?_⟩
  · rw [firstDate, hahead]
    exact Date.addDays?_eq_some.mpr rfl
  · simp only [Date.daysUntil]
    omega

/-- A schedule with a date every week fires on its weekday from its start on. -/
theorem firesOn_iff_of_weekly (hweekly : s.weeks = 1) : s.firesOn date = true ↔
    date.weekday = s.dayOfWeek ∧ s.validFrom ≤ date ∧ s.reaches date = true := by
  constructor
  · intro hfires
    obtain ⟨first, hfirst, hle, hreaches, -⟩ := firesOn_iff.mp hfires
    exact ⟨weekday_of_firesOn hfires, (le_firstDate hfirst).trans hle, hreaches⟩
  · rintro ⟨hweekday, hstart, hreaches⟩
    obtain ⟨first, hfirst, hle, hdvd⟩ := exists_firstDate_of_weekday hstart hweekday
    refine firesOn_iff.mpr ⟨first, hfirst, hle, hreaches, ?_⟩
    rw [step, hweekly]
    exact hdvd

end Schedule

namespace Recurrence

variable {validFrom windowStart windowEnd date : Date} {validTo : Option Date}

/-- The dates that the schedules of a recurrence have in a window, one schedule after the other. -/
def dates (r : Recurrence) (validFrom : Date) (validTo : Option Date)
    (windowStart windowEnd : Date) : List Date :=
  (r.schedules validFrom validTo).flatMap fun s => (s.datesBetween windowStart windowEnd).toList

theorem mem_dates {r : Recurrence} : date ∈ r.dates validFrom validTo windowStart windowEnd ↔
    (∃ s ∈ r.schedules validFrom validTo, s.firesOn date = true) ∧
      windowStart ≤ date ∧ date ≤ windowEnd := by
  simp only [dates, List.mem_flatMap, Schedule.mem_datesBetween]
  constructor
  · rintro ⟨s, hs, hfires, hwindow⟩
    exact ⟨⟨s, hs, hfires⟩, hwindow⟩
  · rintro ⟨⟨s, hs, hfires⟩, hwindow⟩
    exact ⟨s, hs, hfires, hwindow⟩

/-! ## Every day -/

/-- Every day of validity is of some weekday, and the schedule of that weekday fires. -/
theorem daily_fires_iff : (∃ s ∈ daily.schedules validFrom validTo, s.firesOn date = true) ↔
    validFrom ≤ date ∧ ∀ last ∈ validTo, date ≤ last := by
  have hreaches : ∀ dayOfWeek, (⟨dayOfWeek, validFrom, validTo, 1⟩ : Schedule).reaches date = true ↔
      ∀ last ∈ validTo, date ≤ last := by
    intro dayOfWeek
    cases validTo <;> simp [Schedule.reaches]
  constructor
  · rintro ⟨s, hs, hfires⟩
    obtain ⟨dayOfWeek, -, rfl⟩ := List.mem_map.mp hs
    obtain ⟨-, hstart, hlast⟩ := (Schedule.firesOn_iff_of_weekly rfl).mp hfires
    exact ⟨hstart, (hreaches dayOfWeek).mp hlast⟩
  · rintro ⟨hstart, hlast⟩
    refine ⟨_, List.mem_map_of_mem date.weekday.mem_all, ?_⟩
    exact (Schedule.firesOn_iff_of_weekly rfl).mpr ⟨rfl, hstart, (hreaches _).mpr hlast⟩

/-- No day is of two weekdays. -/
theorem nodup_daily : (daily.dates validFrom validTo windowStart windowEnd).Nodup := by
  have hweekdays : Weekday.all.Nodup := by decide
  rw [dates, schedules, List.flatMap_map]
  refine List.nodup_flatMap.mpr
    ⟨fun _ _ => Schedule.nodup_datesBetween .., hweekdays.imp fun {first second} hne => ?_⟩
  intro date hfirst hsecond
  have hon := Schedule.weekday_of_firesOn (Schedule.mem_datesBetween.mp hfirst).1
  have hon' := Schedule.weekday_of_firesOn (Schedule.mem_datesBetween.mp hsecond).1
  exact hne (hon.symm.trans hon')

/-! ## Once -/

theorem single_fires_iff :
    (∃ s ∈ single.schedules validFrom validTo, s.firesOn date = true) ↔ date = validFrom := by
  simp only [schedules, List.mem_singleton, exists_eq_left]
  rw [Schedule.firesOn_iff_of_weekly rfl]
  constructor
  · rintro ⟨-, hstart, hlast⟩
    exact le_antisymm (of_decide_eq_true hlast) hstart
  · rintro rfl
    exact ⟨rfl, le_rfl, decide_eq_true le_rfl⟩

theorem single_dates : single.dates validFrom validTo windowStart windowEnd =
    if windowStart ≤ validFrom ∧ validFrom ≤ windowEnd then [validFrom] else [] := by
  have hnodup : (single.dates validFrom validTo windowStart windowEnd).Nodup := by
    rw [dates, schedules, List.flatMap_singleton]
    exact Schedule.nodup_datesBetween ..
  have hmem : ∀ date, date ∈ single.dates validFrom validTo windowStart windowEnd ↔
      date = validFrom ∧ windowStart ≤ date ∧ date ≤ windowEnd := by
    intro date
    rw [mem_dates, single_fires_iff]
  split
  · next hwindow =>
    refine List.perm_singleton.mp ((List.perm_ext_iff_of_nodup hnodup (by simp)).mpr fun date => ?_)
    rw [hmem, List.mem_singleton]
    exact and_iff_left_of_imp fun h => h ▸ hwindow
  · next hoff =>
    refine List.eq_nil_iff_forall_not_mem.mpr fun date hdate => ?_
    obtain ⟨rfl, hwindow⟩ := (hmem date).mp hdate
    exact hoff hwindow

/-- The seven schedules of a daily recurrence together have every date of the window from its first
to its last day, each once. The schedule of a single one has its first day if that is in the window,
whatever its last day, and no other date. -/
theorem stands_for_exactly (validFrom : Date) (validTo : Option Date)
    (windowStart windowEnd : Date) :
    ((daily.schedules validFrom validTo).length = 7 ∧
      (daily.dates validFrom validTo windowStart windowEnd).Nodup ∧
      ∀ date, date ∈ daily.dates validFrom validTo windowStart windowEnd ↔
        (validFrom ≤ date ∧ ∀ last ∈ validTo, date ≤ last) ∧
          windowStart ≤ date ∧ date ≤ windowEnd) ∧
    (single.schedules validFrom validTo).length = 1 ∧
      single.dates validFrom validTo windowStart windowEnd =
        if windowStart ≤ validFrom ∧ validFrom ≤ windowEnd then [validFrom] else [] :=
  ⟨⟨rfl, nodup_daily, fun _ => mem_dates.trans (and_congr_left' daily_fires_iff)⟩, rfl,
    single_dates⟩

/-- On the last day of the calendar six of the schedules have no first date. -/
example : (daily.schedules Date.last none).countP (·.firstDate.isNone) = 6 ∧
    daily.dates Date.last none Date.last Date.last = [Date.last] := by
  decide +kernel

end Recurrence

end PrisonVisits
