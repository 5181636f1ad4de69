import Mathlib.Data.List.DropRight
import PrisonVisits.Eligibility.Location

/-! # Written locations are read back

A text is a location exactly if the hyphens cut it into one to four parts none of which is blank,
and the parts are then the levels. So the text that was read is written again, and a path survives
its text unless a level holds a hyphen of its own: the reader then cuts that level as well. -/

namespace PrisonVisits

namespace Text

/-- The text is cut at every separator. There is a part at least, no part holds the separator, and
with one between any two of them the parts make up the text. -/
structure CutAt (separator : Char) (s : String) (parts : List String) : Prop where
  ne_nil : parts ≠ []
  free : ∀ part ∈ parts, separator ∉ part.toList
  whole : (String.singleton separator).intercalate parts = s

variable {separator : Char} {s : String} {parts : List String}

theorem toList_intercalate_singleton :
    ((String.singleton separator).intercalate parts).toList =
      join separator (parts.map String.toList) := by
  rw [String.toList_intercalate, String.toList_singleton]
  rfl

/-- There is one cut of a text: its segments. -/
theorem cutAt_iff :
    CutAt separator s parts ↔ parts = (segments separator s.toList).map String.ofList := by
  constructor
  · rintro ⟨hne, hfree, rfl⟩
    rw [toList_intercalate_singleton, segments_join (by simpa using hne) (by simpa using hfree)]
    simp
  · rintro rfl
    refine ⟨?_, ?_, ?_⟩
    · simpa using segments_ne_nil separator s.toList
    · simpa using fun piece => separator_not_mem
    · rw [← String.toList_inj, toList_intercalate_singleton]
      simpa [Function.comp_def] using join_segments separator s.toList

theorem exists_cutAt (separator : Char) (s : String) :
    ∃ first deeper, CutAt separator s (first :: deeper) := by
  obtain ⟨first, deeper, h⟩ := List.exists_cons_of_ne_nil (cutAt_iff.mpr rfl).ne_nil
  exact ⟨first, deeper, cutAt_iff.mpr h.symm⟩

theorem skipSpace_eq_nil_iff {cs : List Char} :
    skipSpace cs = [] ↔ ∀ c ∈ cs, isSpace c = true :=
  List.dropWhile_eq_nil_iff

/-- Blank text is the text of which nothing is left without the white space at its ends. -/
theorem isBlank_iff : isBlank s = true ↔ trim s.toList = [] :=
  calc isBlank s = true
    _ ↔ ∀ c ∈ s.toList, isSpace c = true := List.all_eq_true
    _ ↔ skipSpace (skipSpace s.toList) = [] := by
      rw [← skipSpace_eq_nil_iff, skipSpace, skipSpace, List.dropWhile_idempotent]
    _ ↔ ∀ c ∈ (skipSpace s.toList).reverse, isSpace c = true := by
      simp only [skipSpace_eq_nil_iff, List.mem_reverse]
    _ ↔ skipSpace (skipSpace s.toList).reverse = [] := skipSpace_eq_nil_iff.symm
    _ ↔ trim s.toList = [] := List.reverse_eq_nil_iff.symm

end Text

open Text

namespace LocationPath

variable {s : String} {p : LocationPath} {first : String} {deeper : List String}

theorem ofText_of_cutAt (h : CutAt '-' s (first :: deeper)) :
    ofText s = if 3 < deeper.length then .error (.tooDeep s)
      else ofLevels first deeper[0]? deeper[1]? deeper[2]? := by
  rw [ofText, ← cutAt_iff.mp h]

/-- The levels that are read are the parts of the text. -/
theorem ofText_eq_ok_iff : ofText s = .ok p ↔ CutAt '-' s p.levels := by
  obtain ⟨first, deeper, hcut⟩ := exists_cutAt '-' s
  have hlevels : CutAt '-' s p.levels ↔ p.levels = first :: deeper := by
    rw [cutAt_iff, ← cutAt_iff.mp hcut]
  rw [ofText_of_cutAt hcut, hlevels]
  split
  · next hdeep =>
    -- no path has five levels, so there is nothing to read on either side
    have hdepth := p.depth_le
    constructor
    · simp
    · intro h
      simp only [h, List.length_cons] at hdepth
      omega
  · exact ofLevels_getElem?_eq_ok_iff (by omega)

/-- There is a path to read if no part is blank and there are no more than four of them. -/
theorem exists_ofText_iff : (∃ p, ofText s = .ok p) ↔ ∃ parts, CutAt '-' s parts ∧
    parts.length ≤ 4 ∧ ∀ part ∈ parts, trim part.toList ≠ [] := by
  have hblank : ∀ part : String, trim part.toList ≠ [] ↔ isBlank part = false := by
    intro part
    rw [← Bool.not_eq_true, isBlank_iff]
  simp only [hblank]
  constructor
  · rintro ⟨p, h⟩
    exact ⟨p.levels, ofText_eq_ok_iff.mp h, p.depth_le, p.not_blank⟩
  · rintro ⟨parts, hcut, hdepth, hnone⟩
    exact ⟨⟨parts, hcut.ne_nil, hdepth, hnone⟩, ofText_eq_ok_iff.mpr hcut⟩

theorem intercalate_levels (p : LocationPath) :
    (String.singleton '-').intercalate p.levels = p.text := by
  rw [← String.toList_inj, text, String.toList_ofList]
  exact toList_intercalate_singleton

/-- The text of a path is cut between its levels only, unless a level holds a hyphen. -/
theorem cutAt_text_iff : CutAt '-' p.text p.levels ↔ ∀ level ∈ p.levels, '-' ∉ level.toList :=
  ⟨CutAt.free, fun hfree => ⟨p.levels_ne_nil, hfree, intercalate_levels p⟩⟩

theorem ofLevels_getElem?_eq_error_iff {fault : LocationFault} (h : deeper.length ≤ 3) :
    ofLevels first deeper[0]? deeper[1]? deeper[2]? = .error fault ↔
      if isBlank first then fault = .firstMissing
      else (∃ level ∈ deeper, isBlank level = true) ∧ fault = .blankLevel := by
  have hrow : present first deeper[0]? deeper[1]? deeper[2]? = first :: deeper :=
    present_getElem? h
  have hdeeper : deeper[0]?.toList ++ deeper[1]?.toList ++ deeper[2]?.toList = deeper :=
    (List.cons.inj hrow).2
  have hgapless : ∀ n : Nat, ¬(deeper[n + 1]?.isSome && deeper[n]?.isNone) = true := by
    intro n
    simp only [Bool.and_eq_true, isSome_getElem?, Option.isNone_iff_eq_none,
      List.getElem?_eq_none_iff]
    omega
  cases hfirst : isBlank first with
  | true => simpa [ofLevels, hfirst] using eq_comm
  | false =>
    unfold ofLevels
    rw [dif_neg (by simp [hfirst]), if_neg (hgapless 0), if_neg (hgapless 1)]
    split
    · next hblank =>
      rw [hdeeper, List.any_eq_true] at hblank
      simpa [hblank] using eq_comm
    · next hblank =>
      rw [hdeeper, List.any_eq_true] at hblank
      simp [hblank]

/-- What is wrong with a text that is no path: it has a fifth part, or else its first part is blank,
or else a later one. There are no gaps to find fault with. -/
theorem ofText_eq_error_iff {fault : LocationFault} (h : CutAt '-' s (first :: deeper)) :
    ofText s = .error fault ↔
      if 3 < deeper.length then fault = .tooDeep s
      else if isBlank first then fault = .firstMissing
      else (∃ level ∈ deeper, isBlank level = true) ∧ fault = .blankLevel := by
  rw [ofText_of_cutAt h]
  split
  · simpa using eq_comm
  · exact ofLevels_getElem?_eq_error_iff (by omega)

example : ofText "A-1-2-3-4" = .error (.tooDeep "A-1-2-3-4") := by rfl

example : ofText "A--3" = .error .blankLevel := by rfl

/-- Exactly the texts are read that the hyphens cut into one to four parts of which none is blank,
and the text of what was read is the text again. A path is read back from its text exactly if none
of its levels holds a hyphen. -/
theorem texts_read_exactly :
    (∀ s, (∃ p, ofText s = .ok p) ↔ ∃ parts, CutAt '-' s parts ∧
      parts.length ≤ 4 ∧ ∀ part ∈ parts, trim part.toList ≠ []) ∧
    (∀ s p, ofText s = .ok p → CutAt '-' s p.levels ∧ p.text = s) ∧
    ∀ first second third fourth p, ofLevels first second third fourth = .ok p →
      (ofText p.text = .ok p ↔
        ∀ level ∈ present first second third fourth, '-' ∉ level.toList) := by
  refine ⟨fun _ => exists_ofText_iff, fun s p hread => ?_, fun _ _ _ _ p hlevels => ?_⟩
  · have hcut := ofText_eq_ok_iff.mp hread
    exact ⟨hcut, (intercalate_levels p).symm.trans hcut.whole⟩
  · rw [ofText_eq_ok_iff, cutAt_text_iff, (ofLevels_eq_ok_iff.mp hlevels).1]

end LocationPath

namespace Sample

def cell : LocationPath := ⟨["C", "2", "014"], by decide, by decide, by decide⟩

/-- A wing whose name holds a hyphen. -/
def annexe : LocationPath := ⟨["A-1"], by decide, by decide, by decide⟩

end Sample

/-- A cell is read from its text; the annexe is not, as its text is that of a landing of wing A. -/
theorem LocationPath.texts_read_exactly_sample :
    ofText "C-2-014" = .ok Sample.cell ∧ Sample.cell.text = "C-2-014" ∧
      ofLevels "A-1" none none none = .ok Sample.annexe ∧
      ofText Sample.annexe.text ≠ .ok Sample.annexe := by
  obtain ⟨-, hwritten, hback⟩ := texts_read_exactly
  have hcell : ofText "C-2-014" = .ok Sample.cell := by rfl
  have hannexe : ofLevels "A-1" none none none = .ok Sample.annexe := by rfl
  refine ⟨hcell, (hwritten _ _ hcell).2, hannexe, ?_⟩
  rw [Ne, hback _ _ _ _ _ hannexe]
  decide

end PrisonVisits
