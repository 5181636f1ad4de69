import Mathlib.Data.Fintype.BigOperators
import PrisonVisits.Proofs.Framing
import PrisonVisits.Proofs.Snapshots
import PrisonVisits.Proofs.StoreIndexes

/-! # Short references are never used up

Every stored reference is that of a row, every row was saved by a record, and every record takes
bytes of the journal. There are more words of 64 letters than a journal has bytes. -/

namespace PrisonVisits

open Std

/-! ## The references of the rows -/

namespace Rows

def references (t : Rows) : List Reference :=
  t.groups.keys ++ t.templates.keys ++ t.applications.keys ++ t.visits.values.map (·.reference)

def size (t : Rows) : Nat := t.groups.size + t.templates.size + t.applications.size + t.visits.size

theorem length_references (t : Rows) : t.references.length = t.size := by
  simp only [references, size, List.length_append, List.length_map, ExtTreeMap.length_keys,
    Table.values_eq, ExtTreeMap.length_toList]

theorem size_apply_le (t : Rows) (r : Record) : (t.apply r).size ≤ t.size + 1 := by
  cases r
  case audit => exact Nat.le_succ _
  all_goals
    simp only [size, apply]
    grind [ExtTreeMap.size_insert_le, ExtTreeMap.size_erase_le]

theorem size_applyCommit_le (t : Rows) (c : Commit) :
    (t.applyCommit c).size ≤ t.size + c.length := by
  induction c generalizing t with
  | nil => exact Nat.le_refl _
  | cons r c ih =>
    have hfirst := size_apply_le t r
    have hrest := ih (t.apply r)
    rw [applyCommit_cons, List.length_cons]
    omega

end Rows

namespace Store

theorem Sound.mem_references {s : Store} (h : s.Sound) {reference : Reference}
    (hused : s.containsReference reference = true) : reference ∈ s.rows.references := by
  simp only [Rows.references, List.mem_append, ExtTreeMap.mem_keys, List.mem_map]
  rcases (h.containsReference_iff reference).mp hused with ⟨a, ha⟩ | ⟨v, hv, hr⟩ | ⟨T, hT⟩ | ⟨g, hg⟩
  · exact .inl (.inr (ExtTreeMap.mem_iff_isSome_getElem?.mpr (Option.isSome_of_eq_some ha)))
  · exact .inr ⟨v, h.mem_visits.mpr hv, hr⟩
  · exact .inl (.inl (.inr (ExtTreeMap.mem_iff_isSome_getElem?.mpr (Option.isSome_of_eq_some hT))))
  · exact .inl (.inl (.inl (ExtTreeMap.mem_iff_isSome_getElem?.mpr (Option.isSome_of_eq_some hg))))

theorem size_ofCommits_le (commits : List Commit) :
    (ofCommits commits).rows.size ≤ (Journal.entries commits).length := by
  have hrecords : commits.flatten.length ≤ (Journal.entries commits).length := by
    induction commits with
    | nil => exact Nat.le_refl _
    | cons c commits ih =>
      have hlength : c.length ≤ (Wire.encode c).length :=
        Nat.le_trans (Wire.length_le_flatMap_encode c) (by
          change _ ≤ (Wire.encode (UInt64.ofNat c.length) ++ c.flatMap Wire.encode).length
          rw [List.length_append]
          omega)
      rw [Journal.entries, List.flatMap_cons, ← Journal.entries, List.flatten_cons,
        List.length_append, List.length_append, Journal.length_entry]
      omega
  rw [rows_ofCommits]
  refine Nat.le_trans (Rows.size_applyCommit_le _ _) ?_
  rw [show empty.rows.size = 0 from rfl, Nat.zero_add]
  exact hrecords

end Store

/-! ## Words -/

/-- A word of 64 letters, each one of two. -/
def word (letters : Fin 64 → Bool) : Reference :=
  String.ofList (List.ofFn fun i => if letters i then 'b' else 'a')

theorem utf8ByteSize_ofList {l : List Char} (h : ∀ c ∈ l, c.utf8Size = 1) :
    (String.ofList l).utf8ByteSize = l.length := by
  rw [← String.size_toByteArray]
  simp only [String.toByteArray_ofList, List.utf8Encode, List.size_toByteArray]
  induction l with
  | nil => rfl
  | cons c l ih =>
    obtain ⟨hc, hl⟩ := List.forall_mem_cons.mp h
    rw [List.flatMap_cons, List.length_append, ih hl, String.length_utf8EncodeChar, hc,
      List.length_cons, Nat.add_comm]

theorem utf8ByteSize_word (letters : Fin 64 → Bool) : (word letters).utf8ByteSize = 64 := by
  rw [word, utf8ByteSize_ofList, List.length_ofFn]
  intro c hc
  obtain ⟨i, rfl⟩ := List.mem_ofFn.mp hc
  cases letters i <;> decide

theorem word_injective : Function.Injective word := by
  intro x y h
  have hletters := List.ofFn_injective (String.ofList_injective h)
  funext i
  have hi := congrFun hletters i
  cases hx : x i <;> cases hy : y i <;> simp_all

/-- A store that is read from a journal leaves a reference of 64 letters. -/
theorem exists_unused {commits : List Commit} (h : (Journal.entries commits).length < 2 ^ 64) :
    ∃ reference : Reference, reference.utf8ByteSize = 64 ∧
      (Store.ofCommits commits).containsReference reference = false := by
  refine Classical.byContradiction fun hnone => ?_
  have hmem : ∀ letters, word letters ∈ (Store.ofCommits commits).rows.references := by
    intro letters
    refine (Store.sound_ofCommits commits).mem_references (Bool.of_not_eq_false fun hfree => ?_)
    exact hnone ⟨word letters, utf8ByteSize_word letters, hfree⟩
  have hwords : 2 ^ 64 ≤ (Journal.entries commits).length := by
    calc 2 ^ 64 = (Finset.univ : Finset (Fin 64 → Bool)).card := by
          rw [Finset.card_univ, Fintype.card_fun, Fintype.card_bool, Fintype.card_fin]
      _ ≤ (Store.ofCommits commits).rows.references.toFinset.card :=
        Finset.card_le_card_of_injOn word (fun letters _ => List.mem_toFinset.mpr (hmem letters))
          word_injective.injOn
      _ ≤ (Store.ofCommits commits).rows.references.length := List.toFinset_card_le _
      _ = (Store.ofCommits commits).rows.size := Rows.length_references _
      _ ≤ (Journal.entries commits).length := Store.size_ofCommits_le commits
  omega

end PrisonVisits
