/-! Text cut at a separator. There is always one segment more than there are separators, and joining
the segments again gives the text back. -/

namespace PrisonVisits.Text

/-- The pieces between the separators, empty ones included. -/
def segments (separator : Char) : List Char → List (List Char)
  | [] => [[]]
  | c :: cs =>
    if c = separator then [] :: segments separator cs
    else
      match segments separator cs with
      | [] => [[c]]
      | piece :: pieces => (c :: piece) :: pieces

def join (separator : Char) (pieces : List (List Char)) : List Char :=
  List.intercalate [separator] pieces

theorem segments_ne_nil (separator : Char) (cs : List Char) : segments separator cs ≠ [] := by
  cases cs with
  | nil => simp [segments]
  | cons c cs =>
    simp only [segments]
    split
    · simp
    · split <;> simp

/-- The pieces are those of the library's split. -/
theorem segments_eq_splitOn (separator : Char) (cs : List Char) :
    segments separator cs = cs.splitOn separator := by
  induction cs with
  | nil => simp [segments]
  | cons c cs ih =>
    simp only [segments, List.splitOn_cons_eq_if_modifyHead, beq_iff_eq, ih]
    split
    · rfl
    · obtain ⟨piece, pieces, h⟩ := List.exists_cons_of_ne_nil (List.splitOn_ne_nil separator cs)
      rw [h, List.modifyHead_cons]

theorem join_segments (separator : Char) (cs : List Char) :
    join separator (segments separator cs) = cs := by
  rw [segments_eq_splitOn]
  exact List.intercalate_splitOn separator

theorem segments_join {separator : Char} {pieces : List (List Char)} (hne : pieces ≠ [])
    (hfree : ∀ piece ∈ pieces, separator ∉ piece) :
    segments separator (join separator pieces) = pieces := by
  rw [segments_eq_splitOn]
  exact List.splitOn_intercalate separator hfree hne

theorem separator_not_mem {separator : Char} {cs piece : List Char}
    (h : piece ∈ segments separator cs) : separator ∉ piece := by
  induction cs generalizing piece with
  | nil => simp_all [segments]
  | cons c cs ih =>
    obtain ⟨first, pieces, hcs⟩ := List.exists_cons_of_ne_nil (segments_ne_nil separator cs)
    rw [hcs] at ih
    simp only [segments, hcs] at h
    split at h
    · rcases List.mem_cons.mp h with rfl | h
      · simp
      · exact ih h
    · next hc =>
      rcases List.mem_cons.mp h with rfl | h
      · simp [Ne.symm hc, ih List.mem_cons_self]
      · exact ih (List.mem_cons_of_mem _ h)

end PrisonVisits.Text
