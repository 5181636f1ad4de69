import Mathlib.Data.List.Nodup
import Mathlib.Data.List.Perm.Subperm
import Std.Data.ExtTreeMap

/-! # Tables of rows

A table is a map in which every row stands under its own key. Its values are the rows in the order
of their keys, and saving them one by one into an empty table builds it again, in whatever order
they come. -/

namespace PrisonVisits.Table

open Std

variable {κ ρ : Type} [Ord κ]

/-! ## Rows in the order of their keys -/

def Ascending (key : ρ → κ) (rows : List ρ) : Prop :=
  rows.Pairwise fun v w => compare (key v) (key w) = .lt

theorem Ascending.sublist {key : ρ → κ} {rows rows' : List ρ} (h : Ascending key rows)
    (hs : rows'.Sublist rows) : Ascending key rows' :=
  List.Pairwise.sublist hs h

/-- Rows without duplicates of which only one can pass a test. -/
theorem countP_le_one {p : ρ → Bool} {l : List ρ} (hnodup : l.Nodup)
    (hsame : ∀ a ∈ l, ∀ b ∈ l, p a = true → p b = true → a = b) : l.countP p ≤ 1 := by
  rw [List.countP_eq_length_filter]
  have hfilter : (l.filter p).Nodup := hnodup.sublist List.filter_sublist
  match hl : l.filter p with
  | [] => exact Nat.zero_le 1
  | [a] => exact Nat.le_refl 1
  | a :: b :: rest =>
    have hmem : ∀ x ∈ [a, b], x ∈ l ∧ p x = true := fun x hx => by
      refine List.mem_filter.mp ?_
      rw [hl]
      simp only [List.mem_cons, List.not_mem_nil, or_false] at hx
      rcases hx with rfl | rfl <;> simp
    obtain ⟨ha, hpa⟩ := hmem a (by simp)
    obtain ⟨hb, hpb⟩ := hmem b (by simp)
    rw [hl, hsame a ha b hb hpa hpb] at hfilter
    simp at hfilter

/-- Taking a row away filters it out. -/
theorem ite_none_eq_filter {c : Prop} [Decidable c] {o : Option ρ} {p : ρ → Bool}
    (h : ∀ v, o = some v → (c ↔ p v = false)) : (if c then none else o) = o.filter p := by
  cases o with
  | none => exact ite_self none
  | some v =>
    rw [Option.filter_some]
    cases hp : p v with
    | false => rw [if_pos ((h v rfl).mpr hp), if_neg Bool.false_ne_true]
    | true => rw [if_neg fun hc => by simp [(h v rfl).mp hc] at hp, if_pos rfl]

theorem filter_eq_self {o : Option ρ} {p : ρ → Bool} (h : ∀ v, o = some v → p v = true) :
    o.filter p = o := by
  cases o with
  | none => rfl
  | some v => rw [Option.filter_some, if_pos (h v rfl)]

theorem filter_congr {o : Option ρ} {p q : ρ → Bool} (h : ∀ v, o = some v → p v = q v) :
    o.filter p = o.filter q := by
  cases o with
  | none => rfl
  | some v => rw [Option.filter_some, Option.filter_some, h v rfl]

variable [TransOrd κ] {key : ρ → κ} {t : ExtTreeMap κ ρ}

theorem compare_self_ne_lt (k : κ) : compare k k ≠ .lt := by
  have hself : compare k k = .eq := ReflCmp.compare_self
  rw [hself]
  decide

theorem Ascending.nodup_keys {rows : List ρ} (h : Ascending key rows) : (rows.map key).Nodup := by
  refine List.pairwise_map.mpr (List.Pairwise.imp (fun {v w} hlt heq => ?_) h)
  rw [heq] at hlt
  exact compare_self_ne_lt _ hlt

theorem Ascending.nodup {rows : List ρ} (h : Ascending key rows) : rows.Nodup := h.nodup_keys.of_map

/-- Rows in order are known by which they are. -/
theorem Ascending.eq_of_mem_iff {l l' : List ρ} (hl : Ascending key l) (hl' : Ascending key l')
    (h : ∀ v, v ∈ l ↔ v ∈ l') : l = l' := by
  refine ((List.perm_ext_iff_of_nodup hl.nodup hl'.nodup).mpr h).eq_of_pairwise ?_ hl hl'
  intro v w _ _ hvw hwv
  exact absurd (TransCmp.lt_trans hvw hwv) (compare_self_ne_lt _)

/-! ## Rows under their own keys -/

theorem values_eq (t : ExtTreeMap κ ρ) : t.values = t.toList.map Prod.snd := by
  obtain ⟨t⟩ := t
  induction t using ExtDTreeMap.inductionOn with
  | mk a =>
    change a.inner.values = (DTreeMap.Internal.Impl.Const.toList a.inner).map Prod.snd
    rw [DTreeMap.Internal.Impl.values_eq_map_snd,
      DTreeMap.Internal.Impl.Const.toList_eq_toListModel_map, List.map_map]
    rfl

/-- Every row stands under the key that it names itself. -/
def Keyed (key : ρ → κ) (t : ExtTreeMap κ ρ) : Prop := ∀ k v, t[k]? = some v → key v = k

theorem Keyed.empty : Keyed key (∅ : ExtTreeMap κ ρ) := by
  intro k v h
  simp at h

/-- Every row has the property. -/
def All (p : ρ → Prop) (t : ExtTreeMap κ ρ) : Prop := ∀ (k : κ) v, t[k]? = some v → p v

theorem All.empty {p : ρ → Prop} : All p (∅ : ExtTreeMap κ ρ) := by
  intro k v h
  simp at h

variable [LawfulEqOrd κ]

theorem mem_values {v : ρ} : v ∈ t.values ↔ ∃ k : κ, t[k]? = some v := by
  rw [values_eq]
  constructor
  · intro h
    obtain ⟨⟨k, w⟩, hmem, rfl⟩ := List.mem_map.mp h
    exact ⟨k, ExtTreeMap.mem_toList_iff_getElem?_eq_some.mp hmem⟩
  · rintro ⟨k, h⟩
    exact List.mem_map.mpr ⟨(k, v), ExtTreeMap.mem_toList_iff_getElem?_eq_some.mpr h, rfl⟩

theorem Keyed.mem_values (h : Keyed key t) {v : ρ} : v ∈ t.values ↔ t[key v]? = some v := by
  rw [Table.mem_values]
  constructor
  · rintro ⟨k, hk⟩
    rwa [h k v hk]
  · exact fun hv => ⟨key v, hv⟩

/-- A key has a row just if some row names it. -/
theorem Keyed.exists_mem_values (h : Keyed key t) {k : κ} :
    (∃ v ∈ t.values, key v = k) ↔ ∃ v, t[k]? = some v := by
  constructor
  · rintro ⟨v, hv, rfl⟩
    exact ⟨v, h.mem_values.mp hv⟩
  · rintro ⟨v, hv⟩
    exact ⟨v, Table.mem_values.mpr ⟨k, hv⟩, h k v hv⟩

theorem Keyed.ascending_values (h : Keyed key t) : Ascending key t.values := by
  rw [Ascending, values_eq, List.pairwise_map]
  refine ExtTreeMap.ordered_keys_toList.imp_of_mem ?_
  intro a b ha hb hlt
  rw [h _ _ (ExtTreeMap.mem_toList_iff_getElem?_eq_some.mp ha),
    h _ _ (ExtTreeMap.mem_toList_iff_getElem?_eq_some.mp hb)]
  exact hlt

/-- If every key under which a row passes the test had such a row before or is one of the given
keys, then at most so many rows more pass it. -/
theorem Keyed.countP_le {t' : ExtTreeMap κ ρ} (h : Keyed key t) (h' : Keyed key t') {p : ρ → Bool}
    (added : List κ) (hkeys : ∀ (k : κ) v, t'[k]? = some v → p v = true →
      k ∈ added ∨ ∃ w, t[k]? = some w ∧ p w = true) :
    t'.values.countP p ≤ t.values.countP p + added.length := by
  have hnodup := (h'.ascending_values.sublist (List.filter_sublist (p := p))).nodup_keys
  have hsub : (t'.values.filter p).map key ⊆ (t.values.filter p).map key ++ added := by
    intro k hk
    obtain ⟨v, hv, rfl⟩ := List.mem_map.mp hk
    obtain ⟨hv, hp⟩ := List.mem_filter.mp hv
    rcases hkeys _ v (h'.mem_values.mp hv) hp with hadded | ⟨w, hw, hpw⟩
    · exact List.mem_append_right _ hadded
    · refine List.mem_append_left _ (List.mem_map.mpr ⟨w, ?_, h _ w hw⟩)
      exact List.mem_filter.mpr ⟨Table.mem_values.mpr ⟨_, hw⟩, hpw⟩
  have hlength := (hnodup.subperm hsub).length_le
  rwa [List.length_append, List.length_map, List.length_map, ← List.countP_eq_length_filter,
    ← List.countP_eq_length_filter] at hlength

variable [DecidableEq κ]

theorem getElem?_insert (t : ExtTreeMap κ ρ) (k a : κ) (v : ρ) :
    (t.insert k v)[a]? = if k = a then some v else t[a]? := by
  rw [ExtTreeMap.getElem?_insert]
  simp only [LawfulEqCmp.compare_eq_iff_eq]

theorem getElem?_erase (t : ExtTreeMap κ ρ) (k a : κ) :
    (t.erase k)[a]? = if k = a then none else t[a]? := by
  rw [ExtTreeMap.getElem?_erase]
  simp only [LawfulEqCmp.compare_eq_iff_eq]

theorem getElem?_insert_of_ne {k a : κ} {v : ρ} (h : k ≠ a) : (t.insert k v)[a]? = t[a]? := by
  rw [getElem?_insert, if_neg h]

theorem getElem?_erase_of_ne {k a : κ} (h : k ≠ a) : (t.erase k)[a]? = t[a]? := by
  rw [getElem?_erase, if_neg h]

theorem erase_of_absent {k : κ} (h : t[k]? = none) : t.erase k = t := by
  refine ExtTreeMap.ext_getElem? fun a => ?_
  rw [getElem?_erase]
  split
  · next hk => rw [← hk, h]
  · rfl

theorem insert_erase (t : ExtTreeMap κ ρ) (k : κ) (v : ρ) :
    (t.erase k).insert k v = t.insert k v := by
  refine ExtTreeMap.ext_getElem? fun a => ?_
  rw [getElem?_insert, getElem?_insert, getElem?_erase]
  split <;> simp_all

theorem Keyed.insert (h : Keyed key t) (v : ρ) : Keyed key (t.insert (key v) v) := by
  intro k w hw
  rw [getElem?_insert] at hw
  split at hw
  · next hk => cases hw; exact hk
  · exact h k w hw

theorem Keyed.erase (h : Keyed key t) (k : κ) : Keyed key (t.erase k) := by
  intro a w hw
  rw [getElem?_erase] at hw
  split at hw
  · cases hw
  · exact h a w hw

theorem All.insert {p : ρ → Prop} (h : All p t) {v : ρ} (hv : p v) (k : κ) :
    All p (t.insert k v) := by
  intro a w hw
  rw [getElem?_insert] at hw
  split at hw
  · cases hw
    exact hv
  · exact h a w hw

theorem All.erase {p : ρ → Prop} (h : All p t) (k : κ) : All p (t.erase k) := by
  intro a w hw
  rw [getElem?_erase] at hw
  split at hw
  · cases hw
  · exact h a w hw

/-! ## Saving rows one by one -/

def saveAll (key : ρ → κ) (t : ExtTreeMap κ ρ) (rows : List ρ) : ExtTreeMap κ ρ :=
  rows.foldl (fun t v => t.insert (key v) v) t

theorem getElem?_saveAll {rows : List ρ} (hrows : (rows.map key).Nodup) (t : ExtTreeMap κ ρ)
    (k : κ) : (saveAll key t rows)[k]? = (rows.find? fun v => key v = k).or t[k]? := by
  induction rows generalizing t with
  | nil => rfl
  | cons v rows ih =>
    obtain ⟨hv, hrest⟩ := List.nodup_cons.mp hrows
    change (saveAll key (t.insert (key v) v) rows)[k]? = _
    rw [ih hrest, getElem?_insert]
    by_cases hk : key v = k
    · -- no later row takes the place of this one
      have hnone : (rows.find? fun w => key w = k) = none := by
        rw [List.find?_eq_none]
        intro w hw hwk
        rw [hk, ← of_decide_eq_true hwk] at hv
        exact hv (List.mem_map_of_mem hw)
      simp [hk, hnone]
    · simp [hk]

theorem getElem?_saveAll_empty {rows : List ρ} (hrows : (rows.map key).Nodup) {k : κ} {v : ρ} :
    (saveAll key ∅ rows)[k]? = some v ↔ v ∈ rows ∧ key v = k := by
  rw [getElem?_saveAll hrows, ExtTreeMap.getElem?_empty, Option.or_none]
  constructor
  · intro h
    exact ⟨List.mem_of_find?_eq_some h, by simpa using List.find?_some h⟩
  · rintro ⟨hv, rfl⟩
    cases hfind : rows.find? fun w => key w = key v with
    | none => simpa using List.find?_eq_none.mp hfind v hv
    | some w =>
      have hkey : key w = key v := by simpa using List.find?_some hfind
      rw [List.inj_on_of_nodup_map hrows (List.mem_of_find?_eq_some hfind) hv hkey]

/-- The rows of a table build it again in any order. -/
theorem Keyed.saveAll_of_perm (h : Keyed key t) {rows : List ρ} (hrows : rows.Perm t.values) :
    saveAll key ∅ rows = t := by
  have hnodup := (hrows.map key).nodup_iff.mpr h.ascending_values.nodup_keys
  refine ExtTreeMap.ext_getElem? fun k => Option.ext fun v => ?_
  rw [getElem?_saveAll_empty hnodup, hrows.mem_iff, h.mem_values]
  constructor
  · rintro ⟨hv, rfl⟩
    exact hv
  · intro hv
    have hk := h k v hv
    exact ⟨by rwa [hk], hk⟩

end PrisonVisits.Table
