import Mathlib.Data.Prod.Lex
import PrisonVisits.Calendar.Moment

/-! # The order of times

Dates, times of day and moments are in a linear order, each by its key. The key of a time of day is
its second, then its nanosecond; that of a moment is its date, then its time of day. Days that are
added to a date lead to the date so many days on, and seconds that are taken from a moment lead to
none that is later. -/

namespace PrisonVisits

/-! ## Linear orders -/

instance : LinearOrder Date :=
  Function.Injective.linearOrder Date.dayNumber (fun _ _ => Date.ext_dayNumber) Iff.rfl Iff.rfl
    (fun _ _ => apply_ite Date.dayNumber ..) (fun _ _ => apply_ite Date.dayNumber ..)
    (fun _ _ => rfl)

namespace TimeOfDay

def key (t : TimeOfDay) : Lex (Nat × Nat) := toLex (t.second, t.nano)

theorem key_injective : Function.Injective key := by
  rintro ⟨second, nano, _, _⟩ ⟨second', nano', _, _⟩ h
  cases h
  rfl

theorem key_le_key {a b : TimeOfDay} : a.key ≤ b.key ↔ a ≤ b := Prod.Lex.toLex_le_toLex

instance : LinearOrder TimeOfDay where
  __ := Function.Injective.partialOrder key key_injective key_le_key Prod.Lex.toLex_lt_toLex
  le_total a b := (le_total a.key b.key).imp key_le_key.mp key_le_key.mp
  toDecidableLE := inferInstance
  toDecidableEq := inferInstance
  toDecidableLT := inferInstance

end TimeOfDay

namespace Moment

def key (m : Moment) : Lex (Date × TimeOfDay) := toLex (m.date, m.time)

theorem key_injective : Function.Injective key := by
  rintro ⟨date, time⟩ ⟨date', time'⟩ h
  cases h
  rfl

theorem key_le_key {a b : Moment} : a.key ≤ b.key ↔ a ≤ b := Prod.Lex.toLex_le_toLex

instance : LinearOrder Moment where
  __ := Function.Injective.partialOrder key key_injective key_le_key Prod.Lex.toLex_lt_toLex
  le_total a b := (le_total a.key b.key).imp key_le_key.mp key_le_key.mp
  toDecidableLE := inferInstance
  toDecidableEq := inferInstance
  toDecidableLT := inferInstance

theorem date_le {a b : Moment} (h : a ≤ b) : a.date ≤ b.date := h.elim LT.lt.le fun h => h.1.le

end Moment

theorem TimeWindow.contains_self (w : TimeWindow) : w.contains w = true := by
  simp [contains]

/-! ## Days and seconds on -/

namespace Date

theorem addDays?_eq_some {d date : Date} {days : Int} :
    d.addDays? days = some date ↔ date.dayNumber = d.dayNumber + days := by
  unfold addDays? ofDayNumber?
  constructor
  · intro h
    split at h
    · rw [← Option.some.inj h]
    · cases h
  · intro h
    rw [dif_pos ⟨h ▸ date.first_le, h ▸ date.le_last⟩]
    exact congrArg some (ext_dayNumber h.symm)

theorem addDays?_eq_none {d : Date} {days : Int} (h : d.addDays? days = none) (date : Date) :
    date.dayNumber ≠ d.dayNumber + days := by
  intro hdate
  rw [addDays?_eq_some.mpr hdate] at h
  cases h

end Date

/-- Whole days are counted on the date, what is left of them on the time of day. Going back, a leap
second counts as the one after it. -/
theorem Moment.of_addSeconds? {m n : Moment} {seconds : Int} (hmoves : seconds ≠ 0)
    (h : m.addSeconds? seconds = some n) : ∃ start : Int,
      (start = m.time.second ∨ seconds < 0 ∧ start = m.time.second + 1) ∧
      n.date.dayNumber = m.date.dayNumber + (start + seconds) / 86400 ∧
      n.time.second = (start + seconds) % 86400 ∧ n.time.nano = m.time.fraction := by
  unfold addSeconds? at h
  rw [if_neg hmoves] at h
  obtain ⟨date, hdate, rfl⟩ := Option.map_eq_some_iff.mp h
  refine ⟨_, ?_, Date.addDays?_eq_some.mp hdate, Int.toNat_of_nonneg ?_, rfl⟩
  · split
    · next hleap => exact .inr ⟨hleap.2, rfl⟩
    · exact .inl rfl
  · exact Int.emod_nonneg _ (by decide)

/-- Counting back leads to no later moment. -/
theorem Moment.le_of_addSeconds? {m n : Moment} {seconds : Int} (hback : seconds ≤ 0)
    (h : m.addSeconds? seconds = some n) : n ≤ m := by
  by_cases hzero : seconds = 0
  · rw [addSeconds?, if_pos hzero] at h
    exact (Option.some.inj h).ge
  · obtain ⟨start, hstart, hdate, hsecond, hnano⟩ := of_addSeconds? hzero h
    have hday : m.time.second < 86400 := m.time.second_lt
    rcases Int.lt_or_le (start + seconds) 0 with hbefore | hsame
    · refine .inl ?_
      change n.date.dayNumber < m.date.dayNumber
      omega
    · refine .inr ⟨Date.ext_dayNumber (by omega), ?_⟩
      change n.time.second < m.time.second ∨
        n.time.second = m.time.second ∧ n.time.nano ≤ m.time.nano
      have hfraction : n.time.nano ≤ m.time.nano := hnano ▸ Nat.mod_le ..
      omega

end PrisonVisits
