import Mathlib.Order.MinMax
import PrisonVisits.Proofs.TimeOrder
import PrisonVisits.Session.Template

/-! # The dates of a schedule in a window

The run of dates that a schedule has between two days is exact: it holds the dates of the window on
which the schedule fires, each once and in order. Those are the dates that whole steps lead to from
the first one, and the first one is the least date of the schedule's weekday from its start on; near
the end of the calendar there may be none. -/

namespace PrisonVisits

/-! ## Weekdays -/

theorem Weekday.index_ofIndex (n : Nat) : (ofIndex n).index = n % 7 := by
  have hlt : n % 7 < 7 := Nat.mod_lt n (by decide)
  unfold ofIndex
  generalize n % 7 = k at hlt
  match k, hlt with
  | 0, _ | 1, _ | 2, _ | 3, _ | 4, _ | 5, _ | 6, _ => rfl

theorem Weekday.index_injective {a b : Weekday} (h : a.index = b.index) : a = b := by
  rw [← a.ofIndex_index, h, b.ofIndex_index]

theorem Date.index_weekday (d : Date) : (d.weekday.index : Int) = (d.dayNumber + 3) % 7 := by
  rw [weekday, Weekday.index_ofIndex]
  omega

/-! ## Runs -/

namespace DateRun

theorem mem_toList {run : DateRun} {date : Date} :
    date ∈ run.toList ↔ ∃ i < run.length, date.dayNumber = run.start.dayNumber + run.step * i := by
  simp only [toList, List.mem_filterMap, List.mem_range, Date.addDays?_eq_some, Int.natCast_mul]

/-- The dates of a run ascend. -/
theorem pairwise_toList {run : DateRun} (hstep : 0 < run.step) :
    run.toList.Pairwise fun a b => a < b := by
  refine List.Pairwise.filterMap _ ?_ List.pairwise_lt_range
  intro i j hij a ha b hb
  have hlt : run.step * i < run.step * j := Nat.mul_lt_mul_of_pos_left hij hstep
  have hfirst := Date.addDays?_eq_some.mp ha
  have hsecond := Date.addDays?_eq_some.mp hb
  change a.dayNumber < b.dayNumber
  omega

theorem pairwise_upTo {start last : Date} {step : Nat} (hstep : 0 < step) :
    (upTo start step last).toList.Pairwise fun a b => a < b := by
  unfold upTo
  split
  · exact pairwise_toList hstep
  · simp [empty, toList]

/-- A run up to a day holds the days that the steps meet. -/
theorem mem_upTo {start last date : Date} {step : Nat} (hstep : 0 < step) :
    date ∈ (upTo start step last).toList ↔
      start ≤ date ∧ date ≤ last ∧ (step : Int) ∣ start.daysUntil date := by
  unfold upTo
  split
  · next hle =>
    have hle : start.dayNumber ≤ last.dayNumber := hle
    rw [mem_toList]
    constructor
    · rintro ⟨i, hi, hdate⟩
      have hsteps : step * i ≤ (start.daysUntil last).toNat :=
        (Nat.mul_comm i step) ▸ (Nat.le_div_iff_mul_le hstep).mp (Nat.le_of_lt_succ hi)
      simp only [Date.daysUntil] at hsteps hdate ⊢
      refine ⟨?_, ?_, i, by omega⟩
      · change start.dayNumber ≤ date.dayNumber
        omega
      · change date.dayNumber ≤ last.dayNumber
        omega
    · rintro ⟨hfirst, hlast, k, hk⟩
      have hfirst : start.dayNumber ≤ date.dayNumber := hfirst
      have hlast : date.dayNumber ≤ last.dayNumber := hlast
      simp only [Date.daysUntil] at hk ⊢
      have hpos : 0 ≤ k := by
        refine Int.not_lt.mp fun hneg => ?_
        have hback := Int.mul_neg_of_pos_of_neg (a := (step : Int)) (by omega) hneg
        omega
      obtain ⟨i, rfl⟩ := Int.eq_ofNat_of_zero_le hpos
      refine ⟨i, Nat.lt_succ_of_le ((Nat.le_div_iff_mul_le hstep).mpr ?_), by omega⟩
      rw [Nat.mul_comm]
      omega
  · next hempty =>
    constructor
    · intro h
      simp [empty, toList] at h
    · rintro ⟨hfirst, hlast, -⟩
      exact absurd (hfirst.trans hlast) hempty

end DateRun

/-! ## Schedules -/

namespace Schedule

theorem step_pos (s : Schedule) : 0 < s.step := by
  simp only [step, weeks]
  omega

/-- The least date of the schedule's weekday from its start on. -/
structure IsFirst (s : Schedule) (first : Date) : Prop where
  start_le : s.validFrom ≤ first
  weekday : first.weekday = s.dayOfWeek
  least : ∀ date, s.validFrom ≤ date → date.weekday = s.dayOfWeek → first ≤ date

theorem isFirst_of_firstDate {s : Schedule} {first : Date} (h : s.firstDate = some first) :
    s.IsFirst first := by
  have hnumber := Date.addDays?_eq_some.mp h
  have hfrom := s.validFrom.index_weekday
  have hindex := s.dayOfWeek.index_lt
  refine ⟨?_, Weekday.index_injective ?_, fun date hstart hweekday => ?_⟩
  · change s.validFrom.dayNumber ≤ first.dayNumber
    omega
  · have hfirst := first.index_weekday
    omega
  · have hdate := date.index_weekday
    rw [hweekday] at hdate
    change s.validFrom.dayNumber ≤ date.dayNumber at hstart
    change first.dayNumber ≤ date.dayNumber
    omega

/-- A date of the weekday lies no earlier than the day that would be the first one, so where there
is such a date the first one is in the calendar. -/
theorem firstDate_eq_some_iff {s : Schedule} {first : Date} :
    s.firstDate = some first ↔ s.IsFirst first := by
  refine ⟨isFirst_of_firstDate, fun h => ?_⟩
  cases hfound : s.firstDate with
  | some other =>
    have hother := isFirst_of_firstDate hfound
    exact congrArg some (le_antisymm (hother.least first h.start_le h.weekday)
      (h.least other hother.start_le hother.weekday))
  | none =>
    have hstart : s.validFrom.dayNumber ≤ first.dayNumber := h.start_le
    have hfrom := s.validFrom.index_weekday
    have hweekday := first.index_weekday
    rw [h.weekday] at hweekday
    have hlow := s.validFrom.first_le
    have hhigh := first.le_last
    have hahead : 0 ≤ ((s.dayOfWeek.index : Int) - s.validFrom.weekday.index) % 7 := by omega
    have hreach : s.validFrom.dayNumber +
        ((s.dayOfWeek.index : Int) - s.validFrom.weekday.index) % 7 ≤ first.dayNumber := by
      omega
    exact absurd rfl (Date.addDays?_eq_none hfound ⟨_, Int.le_add_of_nonneg_right hahead |>
      Int.le_trans hlow, Int.le_trans hreach hhigh⟩)

theorem firesOn_iff {s : Schedule} {date : Date} : s.firesOn date = true ↔
    ∃ first, s.firstDate = some first ∧ first ≤ date ∧ s.reaches date = true ∧
      (s.step : Int) ∣ first.daysUntil date := by
  unfold firesOn
  cases s.firstDate with
  | none => simp
  | some first =>
    simp only [Bool.and_eq_true, decide_eq_true_eq, beq_iff_eq, Int.dvd_iff_emod_eq_zero,
      Option.some.injEq, exists_eq_left', and_assoc]

theorem reaches_eq (s : Schedule) (date : Date) :
    s.reaches date = s.validTo.all fun last => decide (date ≤ last) := by
  unfold reaches
  cases s.validTo <;> rfl

/-- A schedule fires on the dates that whole steps lead to from its first one. -/
theorem firesOn_iff_steps {s : Schedule} {date : Date} : s.firesOn date = true ↔
    (s.validTo.all fun last => decide (date ≤ last)) = true ∧ ∃ first, s.IsFirst first ∧
      ∃ k : Nat, date.dayNumber =
        first.dayNumber + (7 * max s.weeklyFrequency.toNat 1 * k : Nat) := by
  have hsteps : ∀ first : Date, (first ≤ date ∧ (s.step : Int) ∣ first.daysUntil date) ↔
      ∃ k : Nat, date.dayNumber = first.dayNumber + (s.step * k : Nat) := by
    intro first
    change first.dayNumber ≤ date.dayNumber ∧ (s.step : Int) ∣ date.dayNumber - first.dayNumber ↔ _
    constructor
    · rintro ⟨hle, hdvd⟩
      obtain ⟨gap, hgap⟩ := Int.eq_ofNat_of_zero_le (Int.sub_nonneg_of_le hle)
      rw [hgap] at hdvd
      obtain ⟨k, rfl⟩ := Int.natCast_dvd_natCast.mp hdvd
      exact ⟨k, by omega⟩
    · rintro ⟨k, hk⟩
      exact ⟨by omega, k, by rw [hk, Int.natCast_mul]; omega⟩
  change _ ↔ _ ∧ ∃ first, s.IsFirst first ∧
    ∃ k : Nat, date.dayNumber = first.dayNumber + (s.step * k : Nat)
  simp only [firesOn_iff, firstDate_eq_some_iff, ← reaches_eq, ← hsteps]
  constructor
  · rintro ⟨first, hfirst, hle, hreaches, hdvd⟩
    exact ⟨hreaches, first, hfirst, hle, hdvd⟩
  · rintro ⟨hreaches, first, hfirst, hle, hdvd⟩
    exact ⟨first, hfirst, hle, hreaches, hdvd⟩

/-- A number rounded up to whole steps. -/
theorem le_roundUp (gap : Int) {step : Int} (hstep : 0 < step) :
    gap ≤ (gap + step - 1) / step * step := by
  have hlt := Int.lt_ediv_add_one_mul_self (gap + step - 1) hstep
  rw [Int.add_mul, Int.one_mul] at hlt
  omega

theorem roundUp_le_iff (gap k : Int) {step : Int} (hstep : 0 < step) :
    (gap + step - 1) / step * step ≤ step * k ↔ gap ≤ step * k := by
  constructor
  · exact Int.le_trans (le_roundUp gap hstep)
  · intro hgap
    have hsteps : (gap + step - 1) / step ≤ k := by
      refine Int.le_of_lt_add_one (Int.ediv_lt_of_lt_mul hstep ?_)
      rw [Int.add_mul, Int.one_mul, Int.mul_comm k]
      omega
    rw [Int.mul_comm step]
    exact Int.mul_le_mul_of_nonneg_right hsteps (Int.le_of_lt hstep)

/-- The next date is the first one of the schedule in the window, and whole steps lead from it to
those behind it. -/
theorem nextFrom_eq_some {s : Schedule} {first : Date} (hfirst : s.firstDate = some first)
    {windowStart start : Date} (hstart : s.nextFrom windowStart = some start) (date : Date) :
    (first ≤ date ∧ windowStart ≤ date ∧ (s.step : Int) ∣ first.daysUntil date) ↔
      start ≤ date ∧ (s.step : Int) ∣ start.daysUntil date := by
  have hstep : (0 : Int) < s.step := Int.natCast_pos.mpr s.step_pos
  unfold nextFrom at hstart
  rw [hfirst] at hstart
  dsimp only at hstart
  split at hstart
  · next hbefore =>
    cases hstart
    exact ⟨fun h => ⟨h.1, h.2.2⟩, fun h => ⟨h.1, hbefore.trans h.1, h.2⟩⟩
  · next hbehind =>
    have hnumber := Date.addDays?_eq_some.mp hstart
    have hreach := le_roundUp (first.daysUntil windowStart) hstep
    simp only [Date.daysUntil] at hnumber hreach ⊢
    change ¬windowStart.dayNumber ≤ first.dayNumber at hbehind
    change first.dayNumber ≤ date.dayNumber ∧ windowStart.dayNumber ≤ date.dayNumber ∧ _ ↔
      start.dayNumber ≤ date.dayNumber ∧ _
    constructor
    · rintro ⟨-, hwindow, k, hk⟩
      have hsteps := (roundUp_le_iff (windowStart.dayNumber - first.dayNumber) k hstep).mpr
        (by omega)
      refine ⟨by omega, ?_⟩
      rw [hnumber, ← Int.sub_sub, hk]
      exact Int.dvd_sub (Int.dvd_mul_right ..) (Int.dvd_mul_left ..)
    · rintro ⟨hle, k, hk⟩
      refine ⟨by omega, by omega, ?_⟩
      have hgap : date.dayNumber - first.dayNumber = s.step * k +
          (windowStart.dayNumber - first.dayNumber + s.step - 1) / s.step * s.step := by
        omega
      rw [hgap]
      exact Int.dvd_add (Int.dvd_mul_right ..) (Int.dvd_mul_left ..)

/-- If the next date is not in the calendar, the schedule fires no more. -/
theorem not_fires_of_nextFrom {s : Schedule} {windowStart : Date}
    (hnone : s.nextFrom windowStart = none) {date : Date} (hfires : s.firesOn date = true) :
    ¬windowStart ≤ date := by
  intro hwindow
  obtain ⟨first, hfirst, -, -, k, hk⟩ := firesOn_iff.mp hfires
  have hstep : (0 : Int) < s.step := Int.natCast_pos.mpr s.step_pos
  unfold nextFrom at hnone
  rw [hfirst] at hnone
  dsimp only at hnone
  split at hnone
  · cases hnone
  · have hreach := le_roundUp (first.daysUntil windowStart) hstep
    have hsteps := (roundUp_le_iff (first.daysUntil windowStart) k hstep).mpr
    simp only [Date.daysUntil] at hk hreach hsteps hnone
    change windowStart.dayNumber ≤ date.dayNumber at hwindow
    have hle := hsteps (by omega)
    have hlast := date.le_last
    have hearliest := windowStart.first_le
    generalize (windowStart.dayNumber - first.dayNumber + s.step - 1) / (s.step : Int) * s.step =
      ahead at hreach hle hnone
    have hlow : Date.firstDay ≤ first.dayNumber + ahead := by omega
    have hhigh : first.dayNumber + ahead ≤ Date.lastDay := by omega
    exact Date.addDays?_eq_none hnone ⟨first.dayNumber + ahead, hlow, hhigh⟩ rfl

/-- From the next date on, the steps lead to all dates up to the last one allowed. -/
theorem mem_upTo_nextFrom {s : Schedule} {windowStart windowEnd start last date : Date}
    (hstart : s.nextFrom windowStart = some start)
    (hlast : date ≤ last ↔ s.reaches date = true ∧ date ≤ windowEnd) :
    date ∈ (DateRun.upTo start s.step last).toList ↔
      s.firesOn date = true ∧ windowStart ≤ date ∧ date ≤ windowEnd := by
  obtain ⟨first, hfirst⟩ : ∃ first, s.firstDate = some first := by
    unfold nextFrom at hstart
    cases hfirst : s.firstDate with
    | none => rw [hfirst] at hstart; cases hstart
    | some first => exact ⟨first, rfl⟩
  have hnext := nextFrom_eq_some hfirst hstart date
  rw [DateRun.mem_upTo s.step_pos, firesOn_iff, hlast]
  constructor
  · rintro ⟨hle, ⟨hreaches, hend⟩, hsteps⟩
    obtain ⟨hbefore, hwindow, hdvd⟩ := hnext.mpr ⟨hle, hsteps⟩
    exact ⟨⟨first, hfirst, hbefore, hreaches, hdvd⟩, hwindow, hend⟩
  · rintro ⟨⟨other, hother, hbefore, hreaches, hdvd⟩, hwindow, hend⟩
    cases hother.symm.trans hfirst
    obtain ⟨hle, hsteps⟩ := hnext.mp ⟨hbefore, hwindow, hdvd⟩
    exact ⟨hle, ⟨hreaches, hend⟩, hsteps⟩

/-- The dates of a schedule in a window are those of the window on which it fires. -/
theorem mem_datesBetween {s : Schedule} {windowStart windowEnd date : Date} :
    date ∈ (s.datesBetween windowStart windowEnd).toList ↔
      s.firesOn date = true ∧ windowStart ≤ date ∧ date ≤ windowEnd := by
  unfold datesBetween
  cases hstart : s.nextFrom windowStart with
  | none =>
    refine ⟨fun h => ?_, fun ⟨hfires, hwindow, _⟩ => ?_⟩
    · simp [DateRun.empty, DateRun.toList] at h
    · exact absurd hwindow (not_fires_of_nextFrom hstart hfires)
  | some start =>
    refine mem_upTo_nextFrom hstart ?_
    unfold reaches
    cases s.validTo <;> simp

/-- They are listed in order, each once. -/
theorem pairwise_datesBetween (s : Schedule) (windowStart windowEnd : Date) :
    (s.datesBetween windowStart windowEnd).toList.Pairwise fun a b => a < b := by
  unfold datesBetween
  cases s.nextFrom windowStart with
  | none => simp [DateRun.empty, DateRun.toList]
  | some start => exact DateRun.pairwise_upTo s.step_pos

theorem nodup_datesBetween (s : Schedule) (windowStart windowEnd : Date) :
    (s.datesBetween windowStart windowEnd).toList.Nodup := by
  refine (s.pairwise_datesBetween windowStart windowEnd).imp fun {a b} hlt => ?_
  exact hlt.ne

/-- In every window a schedule lists the dates on which it fires, in order and each once; these are
the dates that whole steps lead to from its first one, no later than its last day. A template lists
the dates of its schedule as long as it is active. -/
theorem dates_listed_exactly (s : Schedule) (T : SessionTemplate) (windowStart windowEnd : Date) :
    ((s.datesBetween windowStart windowEnd).toList.Pairwise fun a b => a < b) ∧
    (∀ date, date ∈ (s.datesBetween windowStart windowEnd).toList ↔
      s.firesOn date = true ∧ windowStart ≤ date ∧ date ≤ windowEnd) ∧
    (∀ date, s.firesOn date = true ↔
      (s.validTo.all fun last => decide (date ≤ last)) = true ∧ ∃ first, s.IsFirst first ∧
        ∃ k : Nat, date.dayNumber =
        first.dayNumber + (7 * max s.weeklyFrequency.toNat 1 * k : Nat)) ∧
    (T.dates windowStart windowEnd).toList =
      if T.active then (T.schedule.datesBetween windowStart windowEnd).toList else [] := by
  refine ⟨s.pairwise_datesBetween windowStart windowEnd, fun date => mem_datesBetween,
    fun date => firesOn_iff_steps, ?_⟩
  unfold SessionTemplate.dates
  split
  · rfl
  · rfl

end Schedule

end PrisonVisits
