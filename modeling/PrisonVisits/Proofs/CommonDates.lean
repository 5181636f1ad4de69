import Mathlib.Algebra.Group.Nat.Defs
import PrisonVisits.Limits
import PrisonVisits.Proofs.ScheduleDates

/-! # Schedules that meet

The search for a common date looks through one common period of the two schedules, from the later of
their first dates on. That is enough: a common date further on can be moved back by whole periods,
and both schedules fire there too. The period must be one that 64 bits can count, as it is for all
frequencies that a template may have. -/

namespace PrisonVisits

/-- The date comes at most a period behind the start, and whole periods lead from it to the other
date. -/
theorem Date.exists_within_period {start date : Date} (h : start ≤ date) {period : Nat}
    (hperiod : 0 < period) : ∃ earlier : Date, start ≤ earlier ∧ earlier ≤ date ∧
      earlier.dayNumber < start.dayNumber + period ∧ (period : Int) ∣ earlier.daysUntil date := by
  have hle : start.dayNumber ≤ date.dayNumber := h
  have hrest := Int.emod_nonneg (date.dayNumber - start.dayNumber) (b := (period : Int)) (by omega)
  have hlt := Int.emod_lt_of_pos (date.dayNumber - start.dayNumber) (b := (period : Int)) (by omega)
  have hsum := Int.emod_add_mul_ediv (date.dayNumber - start.dayNumber) (period : Int)
  have hwhole : 0 ≤ (date.dayNumber - start.dayNumber) / (period : Int) :=
    Int.ediv_nonneg (by omega) (by omega)
  have hgone := Int.mul_nonneg (a := (period : Int)) (by omega) hwhole
  have hfirst := start.first_le
  have hlast := date.le_last
  refine ⟨⟨start.dayNumber + (date.dayNumber - start.dayNumber) % period, by omega, by omega⟩,
    ?_, ?_, ?_, (date.dayNumber - start.dayNumber) / period, ?_⟩
  · change start.dayNumber ≤ start.dayNumber + _
    omega
  · change start.dayNumber + _ ≤ date.dayNumber
    omega
  · change start.dayNumber + _ < start.dayNumber + _
    omega
  · simp only [Date.daysUntil]
    omega

namespace Schedule

variable {a b s : Schedule}

theorem le_firstDate {first : Date} (h : s.firstDate = some first) : s.validFrom ≤ first := by
  have hnumber := Date.addDays?_eq_some.mp h
  change s.validFrom.dayNumber ≤ first.dayNumber
  omega

/-- A schedule fires on its weekday only. -/
theorem weekday_of_firesOn {date : Date} (h : s.firesOn date = true) :
    date.weekday = s.dayOfWeek := by
  obtain ⟨first, hfirst, -, -, k, hk⟩ := firesOn_iff.mp h
  have hnumber := Date.addDays?_eq_some.mp hfirst
  have hfrom := s.validFrom.index_weekday
  have hindex := s.dayOfWeek.index_lt
  have hdate := date.index_weekday
  have hstep : (s.step : Int) * k = 7 * (s.weeks * k) := by
    rw [step, Int.natCast_mul, Int.mul_assoc]
    rfl
  rw [hstep] at hk
  simp only [Date.daysUntil] at hk
  generalize (s.weeks : Int) * k = weeks at hk
  refine Weekday.index_injective ?_
  omega

/-- Whole steps back, no further than to the first date, the schedule has fired too. -/
theorem firesOn_earlier {first date earlier : Date} (h : s.firesOn date = true)
    (hfirst : s.firstDate = some first) (hle : first ≤ earlier) (hback : earlier ≤ date)
    (hsteps : (s.step : Int) ∣ earlier.daysUntil date) : s.firesOn earlier = true := by
  obtain ⟨other, hother, -, hreaches, hdvd⟩ := firesOn_iff.mp h
  cases hother.symm.trans hfirst
  refine firesOn_iff.mpr ⟨first, hfirst, hle, ?_, ?_⟩
  · unfold reaches at hreaches ⊢
    split at hreaches
    · exact decide_eq_true (hback.trans (of_decide_eq_true hreaches))
    · rfl
  · have hgap : first.daysUntil earlier = first.daysUntil date - earlier.daysUntil date := by
      simp only [Date.daysUntil]
      omega
    rw [hgap]
    exact Int.dvd_sub hdvd hsteps

/-! ## One period -/

theorem le_meetingEnd_iff {start date : Date} : date ≤ meetingEnd a b start ↔
    date ≤ (start.addDays? (period a b)).getD Date.last ∧ a.reaches date = true ∧
      b.reaches date = true := by
  unfold meetingEnd reaches
  cases a.validTo <;> cases b.validTo <;> simp [and_assoc]

theorem le_periodEnd {start date : Date} {days : Nat}
    (h : date.dayNumber < start.dayNumber + days) :
    date ≤ (start.addDays? days).getD Date.last := by
  cases hend : start.addDays? days with
  | none => exact date.le_last
  | some stop =>
    have hstop := Date.addDays?_eq_some.mp hend
    change date.dayNumber ≤ stop.dayNumber
    omega

theorem weeks_pos (s : Schedule) : 0 < s.weeks :=
  Nat.lt_of_lt_of_le Nat.one_pos (Nat.le_max_right ..)

theorem weeks_le (h : s.weeklyFrequency ≤ Limits.maxWeeklyFrequency) : s.weeks ≤ 52 := by
  have hle : s.weeklyFrequency.toNat ≤ 52 := UInt32.le_iff_toNat_le.mp h
  exact Nat.max_le.mpr ⟨hle, by decide⟩

/-- The longest time, in days, that 64 bits with a sign can count in milliseconds. -/
def longestPeriod : Nat := (2 ^ 63 - 1) / (1000 * secondsPerDay)

theorem lcm_weeks_le (ha : a.weeklyFrequency ≤ Limits.maxWeeklyFrequency)
    (hb : b.weeklyFrequency ≤ Limits.maxWeeklyFrequency) :
    7 * Nat.lcm a.weeks b.weeks ≤ longestPeriod := by
  have hlcm := Nat.lcm_le_mul a.weeks_pos b.weeks_pos
  have hmul := Nat.mul_le_mul (weeks_le ha) (weeks_le hb)
  have hlong : 7 * (52 * 52) ≤ longestPeriod := by decide
  omega

theorem lt_of_le_longestPeriod {days : Nat} (h : days ≤ longestPeriod) : days < 2 ^ 63 :=
  Nat.lt_of_le_of_lt h (by decide)

theorem period_eq (h : 7 * Nat.lcm a.weeks b.weeks < 2 ^ 63) :
    period a b = (7 * Nat.lcm a.weeks b.weeks : Nat) := by
  unfold period
  refine Int.bmod_eq_of_le_mul_two ?_ ?_ <;> simp only [Int64.size] <;> omega

/-- What the search finds: a common date up to the meeting end. -/
theorem meets_eq_true {firstA firstB : Date} (hA : a.firstDate = some firstA)
    (hB : b.firstDate = some firstB) : a.meets b = true ↔ a.dayOfWeek = b.dayOfWeek ∧
      ∃ date, a.firesOn date = true ∧ b.firesOn date = true ∧ max firstA firstB ≤ date ∧
        date ≤ meetingEnd a b (max firstA firstB) := by
  unfold meets
  rw [hA, hB]
  simp only [Bool.and_eq_true, beq_iff_eq]
  refine and_congr_right fun _ => ?_
  split
  · simp only [List.any_eq_true, mem_datesBetween]
    exact exists_congr fun date => and_comm
  · simp only [List.any_eq_true, mem_datesBetween, and_assoc]
    refine exists_congr fun date => and_congr_right fun _ => ?_
    rw [← and_assoc, and_comm]

theorem firstDate_of_firesOn {date : Date} (h : s.firesOn date = true) :
    ∃ first, s.firstDate = some first ∧ first ≤ date := by
  obtain ⟨first, hfirst, hle, -⟩ := firesOn_iff.mp h
  exact ⟨first, hfirst, hle⟩

/-- Schedules meet exactly if there is a date on which both fire. -/
theorem meets_iff (h : 7 * Nat.lcm a.weeks b.weeks < 2 ^ 63) :
    a.meets b = true ↔ ∃ date, a.firesOn date = true ∧ b.firesOn date = true := by
  constructor
  · intro hmeets
    cases hA : a.firstDate with
    | none => simp [meets, hA] at hmeets
    | some firstA =>
      cases hB : b.firstDate with
      | none => simp [meets, hB] at hmeets
      | some firstB =>
        obtain ⟨-, date, hfiresA, hfiresB, -⟩ := (meets_eq_true hA hB).mp hmeets
        exact ⟨date, hfiresA, hfiresB⟩
  · rintro ⟨date, hfiresA, hfiresB⟩
    obtain ⟨firstA, hA, hleA⟩ := firstDate_of_firesOn hfiresA
    obtain ⟨firstB, hB, hleB⟩ := firstDate_of_firesOn hfiresB
    have hpos : 0 < 7 * Nat.lcm a.weeks b.weeks := by
      have hweeks := Nat.lcm_pos a.weeks_pos b.weeks_pos
      omega
    obtain ⟨earlier, hstart, hback, hwithin, hdvd⟩ :=
      Date.exists_within_period (max_le_iff.mpr ⟨hleA, hleB⟩) hpos
    obtain ⟨hstartA, hstartB⟩ := max_le_iff.mp hstart
    -- both steps divide the common period
    have hstepA : (a.step : Int) ∣ earlier.daysUntil date :=
      Int.dvd_trans (Int.natCast_dvd_natCast.mpr (Nat.mul_dvd_mul_left 7 (Nat.dvd_lcm_left ..)))
        hdvd
    have hstepB : (b.step : Int) ∣ earlier.daysUntil date :=
      Int.dvd_trans (Int.natCast_dvd_natCast.mpr (Nat.mul_dvd_mul_left 7 (Nat.dvd_lcm_right ..)))
        hdvd
    have hearlierA := firesOn_earlier hfiresA hA hstartA hback hstepA
    have hearlierB := firesOn_earlier hfiresB hB hstartB hback hstepB
    obtain ⟨-, -, -, hreachesA, -⟩ := firesOn_iff.mp hearlierA
    obtain ⟨-, -, -, hreachesB, -⟩ := firesOn_iff.mp hearlierB
    refine (meets_eq_true hA hB).mpr ⟨?_, earlier, hearlierA, hearlierB, hstart, ?_⟩
    · exact (weekday_of_firesOn hfiresA).symm.trans (weekday_of_firesOn hfiresB)
    · refine le_meetingEnd_iff.mpr ⟨?_, hreachesA, hreachesB⟩
      rw [period_eq h]
      exact le_periodEnd hwithin

theorem meets_comm (h : 7 * Nat.lcm a.weeks b.weeks < 2 ^ 63) : a.meets b = b.meets a := by
  have hback : 7 * Nat.lcm b.weeks a.weeks < 2 ^ 63 := Nat.lcm_comm .. ▸ h
  rw [Bool.eq_iff_iff, meets_iff h, meets_iff hback]
  exact exists_congr fun _ => and_comm

/-- If the common period of two schedules can be counted, as it can for all frequencies up to the
limit, then the schedules meet exactly if both fire on some date of the calendar, whichever of them
is asked. -/
theorem common_dates_exact (a b : Schedule) :
    (a.weeklyFrequency ≤ Limits.maxWeeklyFrequency →
      b.weeklyFrequency ≤ Limits.maxWeeklyFrequency →
        7 * Nat.lcm a.weeks b.weeks ≤ longestPeriod) ∧
    (7 * Nat.lcm a.weeks b.weeks ≤ longestPeriod →
      (a.meets b = true ↔ ∃ date, a.firesOn date = true ∧ b.firesOn date = true) ∧
        a.meets b = b.meets a) :=
  ⟨lcm_weeks_le, fun h =>
    ⟨meets_iff (lt_of_le_longestPeriod h), meets_comm (lt_of_le_longestPeriod h)⟩⟩

/-- Every second Monday from a given day on. -/
def fortnightly (validFrom : Date) : Schedule := ⟨.monday, validFrom, none, 2⟩

/-- Two such schedules a week apart have no date in common. -/
theorem common_dates_exact_fortnights :
    ∃ first second : Date, second.dayNumber = first.dayNumber + 7 ∧
      (fortnightly first).weeklyFrequency ≤ Limits.maxWeeklyFrequency ∧
      (fortnightly second).weeklyFrequency ≤ Limits.maxWeeklyFrequency ∧
      ¬∃ date, (fortnightly first).firesOn date = true ∧
        (fortnightly second).firesOn date = true := by
  let first : Date := ⟨20003, by decide, by decide⟩
  let second : Date := ⟨20010, by decide, by decide⟩
  obtain ⟨hcounted, hexact⟩ := common_dates_exact (fortnightly first) (fortnightly second)
  have hmeets := (hexact (hcounted (by decide) (by decide))).1
  refine ⟨first, second, by decide, by decide, by decide, fun hcommon => ?_⟩
  exact absurd (hmeets.mpr hcommon) (by decide +kernel)

end Schedule

end PrisonVisits
