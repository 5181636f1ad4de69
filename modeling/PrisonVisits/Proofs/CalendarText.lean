import Mathlib.Algebra.Group.Nat.Defs
import PrisonVisits.Calendar.Text

/-! # Written dates and times are read back

Every reader of `Calendar.Text` undoes its writer, for the whole calendar, signed years included,
and for every time of day, leap seconds included. The numerals come first: a reader of a fixed width
takes exactly the digits that were written for it, whatever follows them. -/

namespace PrisonVisits

namespace Text

theorem isDigit_of_mem_digits {n : Nat} {c : Char} (h : c ∈ digits n) : c.isDigit = true :=
  Nat.isDigit_of_mem_toDigits (by decide) (by decide) h

theorem isDigit_of_mem_padded {width n : Nat} {c : Char} (h : c ∈ padded width n) :
    c.isDigit = true := by
  rcases List.mem_append.mp h with h | h
  · rw [(List.mem_replicate.mp h).2]; decide
  · exact isDigit_of_mem_digits h

theorem ofDigits_padded (width n : Nat) : ofDigits (padded width n) = n := by
  unfold ofDigits padded digits
  rw [Nat.ofDigitChars_append, Nat.ofDigitChars_replicate_zero, Nat.mul_zero]
  exact Nat.ofDigitChars_ten_toDigits

theorem length_padded {width n : Nat} (hw : 0 < width) (hn : n < 10 ^ width) :
    (padded width n).length = width := by
  have hd : (digits n).length ≤ width := (Nat.length_toDigits_le_iff (by decide) hw).mpr hn
  simp only [padded, List.length_append, List.length_replicate]
  omega

theorem padded_ne_nil (width n : Nat) : padded width n ≠ [] := by
  simp [padded, digits, Nat.toDigits_ne_nil]

/-- No digit is white space. -/
theorem isSpace_of_isDigit {c : Char} (h : c.isDigit = true) : isSpace c = false := by
  simp only [Char.isDigit, Bool.and_eq_true, decide_eq_true_eq, ge_iff_le,
    UInt32.le_iff_toNat_le] at h
  change 48 ≤ c.toNat ∧ c.toNat ≤ 57 at h
  rw [isSpace, List.any_eq_false]
  intro range hr
  simp only [Bool.and_eq_true, decide_eq_true_eq]
  simp only [spaceRanges, List.mem_cons, List.not_mem_nil, or_false] at hr
  rcases hr with rfl | rfl | rfl | rfl | rfl | rfl | rfl | rfl | rfl | rfl <;> omega

theorem skipSpace_cons {c : Char} (h : isSpace c = false) (cs : List Char) :
    skipSpace (c :: cs) = c :: cs := by
  simp [skipSpace, h]

theorem skipSpace_padded (width n : Nat) (rest : List Char) :
    skipSpace (padded width n ++ rest) = padded width n ++ rest := by
  cases hp : padded width n with
  | nil => exact absurd hp (padded_ne_nil width n)
  | cons c cs =>
    have hc : c ∈ padded width n := hp ▸ List.mem_cons_self
    exact skipSpace_cons (isSpace_of_isDigit (isDigit_of_mem_padded hc)) _

/-- A numeral is read whole if the reader stops behind it: because its digits are used up, or
because no digit follows. -/
theorem readNumeral_digits {ds rest : List Char} {atMost : Nat} (hne : ds ≠ [])
    (hd : ∀ c ∈ ds, c.isDigit = true) (hlen : ds.length ≤ atMost)
    (hstop : ds.length = atMost ∨ ∀ c ∈ rest.head?, c.isDigit = false) :
    readNumeral atMost (ds ++ rest) = some (ofDigits ds, rest) := by
  have htake : ((ds ++ rest).take atMost).takeWhile Char.isDigit = ds := by
    rw [List.take_append, List.take_of_length_le hlen, List.takeWhile_append_of_pos hd]
    rcases hstop with heq | hstop
    · simp [heq]
    · cases rest with
      | nil => simp
      | cons c cs =>
        have hc : c.isDigit = false := hstop c rfl
        cases atMost - ds.length <;> simp [hc]
  simp [readNumeral, htake, hne]

theorem readNumeral_padded {width n : Nat} (hw : 0 < width) (hn : n < 10 ^ width)
    (rest : List Char) : readNumeral width (padded width n ++ rest) = some (n, rest) := by
  have hlen := length_padded hw hn
  rw [readNumeral_digits (padded_ne_nil width n) (fun c => isDigit_of_mem_padded)
    (Nat.le_of_eq hlen) (.inl hlen), ofDigits_padded]

end Text

open Text

namespace Civil

/-- The numbers of a month and of a day have two digits at most. -/
theorem month_day_lt (n : Int) : (ofDayNumber n).month < 10 ^ 2 ∧ (ofDayNumber n).day < 10 ^ 2 := by
  have hd : ((n + 719468) % 146097).toNat < 146097 := by omega
  obtain ⟨_, _, ht⟩ := yearAndDay_sound hd
  simp only [ofDayNumber, ofDayOfYear]
  generalize (yearAndDay ((n + 719468) % 146097).toNat).2 = t at ht ⊢
  split <;> simp only [monthStart] <;> omega

end Civil

namespace Date

theorem readYear_yearText (year : Int) {c : Char} (hc : c.isDigit = false) (rest : List Char) :
    readYear (yearText year ++ c :: rest) = some (year, c :: rest) := by
  have hsigned : readNumeral (padded 4 year.natAbs ++ c :: rest).length
      (padded 4 year.natAbs ++ c :: rest) = some (year.natAbs, c :: rest) := by
    rw [readNumeral_digits (padded_ne_nil _ _) (fun d => isDigit_of_mem_padded) (by simp)
      (.inr (by simp [hc])), ofDigits_padded]
  unfold yearText
  split
  · simp only [readYear, List.cons_append, hsigned, Option.map_some, Option.some.injEq,
      Prod.mk.injEq, and_true]
    omega
  split
  · simp only [readYear, List.cons_append, hsigned, Option.map_some, Option.some.injEq,
      Prod.mk.injEq, and_true]
    omega
  -- an unsigned year starts with a digit, which is none of the two signs
  have hread : readNumeral 4 (padded 4 year.natAbs ++ c :: rest) = some (year.natAbs, c :: rest) :=
    readNumeral_padded (by decide) (by omega) _
  cases hp : padded 4 year.natAbs with
  | nil => exact absurd hp (padded_ne_nil _ _)
  | cons d ds =>
    have hd : d.isDigit = true := isDigit_of_mem_padded (hp ▸ List.mem_cons_self)
    rw [hp] at hread
    simp only [List.cons_append] at hread ⊢
    unfold readYear
    split
    · rename_i heq; cases heq; cases hd
    · rename_i heq; cases heq; cases hd
    · simp only [hread, Option.map_some, Option.some.injEq, Prod.mk.injEq, and_true]
      omega

theorem skipSpace_yearText (year : Int) (rest : List Char) :
    skipSpace (yearText year ++ rest) = yearText year ++ rest := by
  unfold yearText
  split
  · exact skipSpace_cons (by decide) _
  split
  · exact skipSpace_cons (by decide) _
  · exact skipSpace_padded _ _ _

theorem readCivil_chars (d : Date) (rest : List Char) :
    readCivil (d.chars ++ rest) = some (d.civil, skipSpace rest) := by
  have hm : d.civil.month < 10 ^ 2 := (Civil.month_day_lt d.dayNumber).1
  have hd : d.civil.day < 10 ^ 2 := (Civil.month_day_lt d.dayNumber).2
  have hsep : ∀ cs, skipSpace ('-' :: cs) = '-' :: cs := skipSpace_cons (by decide)
  simp only [readCivil, chars, List.append_assoc, List.cons_append, skipSpace_yearText,
    readYear_yearText _ (show '-'.isDigit = false by decide), Option.bind_eq_bind,
    Option.bind_some, hsep, readChar, if_true, skipSpace_padded,
    readNumeral_padded (show 0 < 2 by decide) hm, readNumeral_padded (show 0 < 2 by decide) hd]
  rfl

theorem ofText?_text (d : Date) : ofText? d.text = some d := by
  have hread := readCivil_chars d []
  simp only [List.append_nil] at hread
  simp [ofText?, text, ofChars?, hread, skipSpace, ofCivil?_civil]

end Date

namespace TimeOfDay

theorem readFraction_fractionText {nano : Nat} (hn : nano < 10 ^ 9) :
    readFraction (fractionText nano) = some (nano, []) := by
  have hpadded : ∀ width k, 0 < width → width ≤ 9 → k < 10 ^ width →
      readFraction ('.' :: padded width k) = some (k * 10 ^ (9 - width), []) := by
    intro width k hw hw9 hk
    have hlen := length_padded hw hk
    have hread : readNumeral 9 (padded width k ++ []) = some (ofDigits (padded width k), []) :=
      readNumeral_digits (padded_ne_nil width k) (fun c => isDigit_of_mem_padded) (by omega)
        (.inr (by simp))
    rw [List.append_nil, ofDigits_padded] at hread
    simp [readFraction, hread, hlen]
  unfold fractionText
  split
  · simp_all [readFraction]
  split
  · rw [hpadded 3 _ (by decide) (by decide) (by omega)]
    simp only [Option.some.injEq, Prod.mk.injEq, and_true]
    omega
  split
  · rw [hpadded 6 _ (by decide) (by decide) (by omega)]
    simp only [Option.some.injEq, Prod.mk.injEq, and_true]
    omega
  · rw [hpadded 9 _ (by decide) (by decide) hn]
    simp

theorem parts_lt (t : TimeOfDay) :
    t.hour < 10 ^ 2 ∧ t.minute < 10 ^ 2 ∧ t.secondOfMinute < 10 ^ 2 ∧ t.fraction < 10 ^ 9 := by
  have hs := t.second_lt
  have hf : t.fraction < 10 ^ 9 := Nat.mod_lt _ (by decide)
  simp only [secondsPerDay] at hs
  simp only [hour, minute, secondOfMinute]
  split <;> omega

theorem readHourMinute_chars (t : TimeOfDay) :
    readHourMinute t.chars = some (t.hour, t.minute,
      ':' :: (padded 2 t.secondOfMinute ++ fractionText t.fraction)) := by
  obtain ⟨hh, hm, _, _⟩ := parts_lt t
  have hsep : ∀ cs, skipSpace (':' :: cs) = ':' :: cs := skipSpace_cons (by decide)
  simp only [readHourMinute, chars, List.append_assoc, List.cons_append, skipSpace_padded,
    readNumeral_padded (show 0 < 2 by decide) hh, Option.bind_eq_bind, Option.bind_some, hsep,
    readChar, if_true, readNumeral_padded (show 0 < 2 by decide) hm]
  rfl

theorem readSeconds_chars (t : TimeOfDay) :
    readSeconds (':' :: (padded 2 t.secondOfMinute ++ fractionText t.fraction)) =
      some (t.secondOfMinute, t.fraction, []) := by
  obtain ⟨_, _, hs, hf⟩ := parts_lt t
  have hsep : ∀ cs, skipSpace (':' :: cs) = ':' :: cs := skipSpace_cons (by decide)
  simp only [readSeconds, hsep, readChar, if_true, Option.bind_eq_bind,
    Option.bind_some, skipSpace_padded, readNumeral_padded (show 0 < 2 by decide) hs,
    readFraction_fractionText hf]
  rfl

theorem ofText?_text (t : TimeOfDay) : ofText? t.text = some t := by
  simp [ofText?, text, ofChars?, readHourMinute_chars, readSeconds_chars, ofParts?_parts]

end TimeOfDay

namespace Moment

theorem ofText?_text (m : Moment) : ofText? m.text = some m := by
  have hsep : ∀ cs, skipSpace ('T' :: cs) = 'T' :: cs := skipSpace_cons (by decide)
  simp [ofText?, text, chars, ofChars?, Date.readCivil_chars, hsep, readChar,
    TimeOfDay.readHourMinute_chars, TimeOfDay.readSeconds_chars, Date.ofCivil?_civil,
    TimeOfDay.ofParts?_parts]

end Moment

theorem Weekday.ofText?_text (w : Weekday) : ofText? w.text = some w := by
  cases w <;> decide

end PrisonVisits
