import PrisonVisits.Text.Segments
import PrisonVisits.Text.Space

/-! Housing locations. A path names one to four levels, the widest first, and none of them is blank.
Its text has hyphens between the levels, so a level that holds a hyphen itself does not survive a
reading. -/

namespace PrisonVisits

open Text

structure LocationPath where
  levels : List String
  levels_ne_nil : levels ≠ []
  depth_le : levels.length ≤ 4
  not_blank : ∀ level ∈ levels, isBlank level = false
deriving DecidableEq

/-- Why some levels make up no path. -/
inductive LocationFault where
  | firstMissing
  | thirdWithoutSecond
  | fourthWithoutThird
  | blankLevel
  | tooDeep (text : String)
deriving DecidableEq

namespace LocationFault

def message : LocationFault → String
  | firstMissing => "invalid location path: level1 is mandatory"
  | thirdWithoutSecond => "invalid location path: level3 set without level2"
  | fourthWithoutThird => "invalid location path: level4 set without level3"
  | blankLevel => "invalid location path: empty level value"
  | tooDeep text => "invalid location path: " ++ text ++ ": more than 4 levels"

end LocationFault

namespace LocationPath

/-- The levels that are present, in order. -/
def present (first : String) (second third fourth : Option String) : List String :=
  first :: (second.toList ++ third.toList ++ fourth.toList)

theorem length_present_le (first : String) (second third fourth : Option String) :
    (present first second third fourth).length ≤ 4 := by
  cases second <;> cases third <;> cases fourth <;> simp [present]

/-- The path with the given levels. A level may stand only where the one before it stands. -/
def ofLevels (first : String) (second third fourth : Option String) :
    Except LocationFault LocationPath :=
  if h₁ : isBlank first = true then .error .firstMissing
  else if third.isSome && second.isNone then .error .thirdWithoutSecond
  else if fourth.isSome && third.isNone then .error .fourthWithoutThird
  else if h : ((second.toList ++ third.toList ++ fourth.toList).any isBlank) = true then
    .error .blankLevel
  else
    .ok ⟨present first second third fourth, by simp [present],
      length_present_le first second third fourth, by
        intro level hl
        rcases List.mem_cons.mp hl with rfl | hl
        · simpa using h₁
        · simp only [List.any_eq_true, not_exists, not_and] at h
          simpa using h level hl⟩

/-- A path is made of exactly the levels that are present, if none of them stands behind a gap. -/
theorem ofLevels_eq_ok_iff {first : String} {second third fourth : Option String}
    {p : LocationPath} : ofLevels first second third fourth = .ok p ↔
      p.levels = present first second third fourth ∧
        (third.isSome → second.isSome) ∧ (fourth.isSome → third.isSome) := by
  constructor
  · intro h
    unfold ofLevels at h
    split at h
    · cases h
    split at h
    · cases h
    next hthird =>
    split at h
    · cases h
    next hfourth =>
    split at h
    · cases h
    cases h
    exact ⟨rfl, by simpa [Option.isSome_iff_ne_none] using hthird,
      by simpa [Option.isSome_iff_ne_none] using hfourth⟩
  · rintro ⟨hlevels, hthird, hfourth⟩
    have hblank := p.not_blank
    simp only [hlevels, present, List.mem_cons, forall_eq_or_imp] at hblank
    obtain ⟨hfirst, hdeeper⟩ := hblank
    cases p
    simp only at hlevels
    subst hlevels
    unfold ofLevels
    rw [dif_neg, if_neg, if_neg, dif_neg]
    · simpa only [Bool.not_eq_true, List.any_eq_false] using hdeeper
    · simpa [Option.isSome_iff_ne_none] using hfourth
    · simpa [Option.isSome_iff_ne_none] using hthird
    · simp [hfirst]

theorem present_getElem? {first : String} {deeper : List String} (h : deeper.length ≤ 3) :
    present first deeper[0]? deeper[1]? deeper[2]? = first :: deeper := by
  match deeper with
  | [] => rfl
  | [_] => rfl
  | [_, _] => rfl
  | [_, _, _] => rfl
  | _ :: _ :: _ :: _ :: _ =>
    simp only [List.length_cons] at h
    omega

/-- Levels in a row have no gaps. -/
theorem ofLevels_getElem?_eq_ok_iff {first : String} {deeper : List String} {p : LocationPath}
    (h : deeper.length ≤ 3) :
    ofLevels first deeper[0]? deeper[1]? deeper[2]? = .ok p ↔ p.levels = first :: deeper := by
  rw [ofLevels_eq_ok_iff, present_getElem? h]
  simp only [isSome_getElem?, and_iff_left_iff_imp]
  omega

def depth (p : LocationPath) : Nat := p.levels.length

def text (p : LocationPath) : String :=
  String.ofList (join '-' (p.levels.map String.toList))

/-- Reads the levels of a text such as A-1-007. -/
def ofText (s : String) : Except LocationFault LocationPath :=
  match (segments '-' s.toList).map String.ofList with
  | [] => .error .firstMissing
  | first :: deeper =>
    if 3 < deeper.length then .error (.tooDeep s)
    else ofLevels first deeper[0]? deeper[1]? deeper[2]?

end LocationPath

end PrisonVisits
