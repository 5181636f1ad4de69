import PrisonVisits.Proofs.StoreRows

/-! # The indexes of a store

Applying a record keeps every index exact, whatever the record is: a row index lists under a key
just the stored rows that have it, the templates of a prison are listed once each, and the visit
that an application points to is a stored visit of that application. Questions to the store are
therefore questions to its rows. -/

namespace PrisonVisits

open Std Table

variable {κ : Type} [Ord κ] [TransOrd κ] [LawfulEqOrd κ] [DecidableEq κ]

/-! ## Row indexes -/

namespace RowIndex

def rows (index : RowIndex κ) (k : κ) : ExtTreeSet UInt64 := index[k]?.getD ∅

omit [LawfulEqOrd κ] [DecidableEq κ] in
theorem ids_eq (index : RowIndex κ) (k : κ) : index.ids k = (index.rows k).toList := by
  unfold ids rows
  cases index[k]? <;> rfl

theorem mem_rows_add (index : RowIndex κ) (key k : κ) (id i : UInt64) :
    i ∈ (index.add key id).rows k ↔ (key = k ∧ id = i) ∨ i ∈ index.rows k := by
  unfold add rows
  rw [getElem?_insert]
  by_cases hk : key = k
  · subst hk
    simp [ExtTreeSet.mem_insert, LawfulEqCmp.compare_eq_iff_eq]
  · simp [hk]

theorem mem_rows_remove (index : RowIndex κ) (key k : κ) (id i : UInt64) :
    i ∈ (index.remove key id).rows k ↔ ¬(key = k ∧ id = i) ∧ i ∈ index.rows k := by
  unfold remove
  cases hold : index[key]? with
  | none =>
    simp only
    refine ⟨fun h => ⟨?_, h⟩, fun h => h.2⟩
    rintro ⟨rfl, -⟩
    simp [rows, hold] at h
  | some old =>
    by_cases hk : key = k
    · subst hk
      by_cases hempty : (old.erase id).isEmpty
      · have hgone : i ∉ old.erase id := by
          rw [ExtTreeSet.isEmpty_iff.mp hempty]
          exact ExtTreeSet.not_mem_empty
        simp only [ExtTreeSet.mem_erase, LawfulEqCmp.compare_eq_iff_eq, ne_eq] at hgone
        simpa [hempty, rows, getElem?_erase, hold] using hgone
      · simp [hempty, rows, hold, ExtTreeSet.mem_erase, LawfulEqCmp.compare_eq_iff_eq]
    · by_cases hempty : (old.erase id).isEmpty
      · simp [hempty, rows, getElem?_erase, hk]
      · simp [hempty, rows, getElem?_insert, hk]

/-- A key without rows is not kept. -/
def Full (index : RowIndex κ) : Prop := ∀ (k : κ) rows, index[k]? = some rows → rows ≠ ∅

theorem Full.add {index : RowIndex κ} (h : index.Full) (key : κ) (id : UInt64) :
    (index.add key id).Full := by
  intro k rows hrows
  unfold RowIndex.add at hrows
  rw [getElem?_insert] at hrows
  split at hrows
  · cases hrows
    intro hempty
    have hid : id ∈ (index[key]?.getD ∅).insert id := by simp [ExtTreeSet.mem_insert]
    rw [hempty] at hid
    exact ExtTreeSet.not_mem_empty hid
  · exact h k rows hrows

theorem Full.remove {index : RowIndex κ} (h : index.Full) (key : κ) (id : UInt64) :
    (index.remove key id).Full := by
  intro k rows hrows
  unfold RowIndex.remove at hrows
  split at hrows
  · exact h k rows hrows
  · dsimp only at hrows
    split at hrows
    · rw [getElem?_erase] at hrows
      split at hrows
      · cases hrows
      · exact h k rows hrows
    · next hfull =>
      rw [getElem?_insert] at hrows
      split at hrows
      · cases hrows
        exact fun hempty => hfull (ExtTreeSet.isEmpty_iff.mpr hempty)
      · exact h k rows hrows

/-- The index lists under each key the visits that have it. -/
structure Exact (index : RowIndex κ) (key : Visit → κ) (visits : ExtTreeMap UInt64 Visit) :
    Prop where
  mem_iff : ∀ k i, i ∈ index.rows k ↔ ∃ v, visits[i]? = some v ∧ key v = k
  full : index.Full

variable {index : RowIndex κ} {key : Visit → κ} {visits : ExtTreeMap UInt64 Visit}

omit [LawfulEqOrd κ] [DecidableEq κ] in
theorem Exact.empty : Exact (∅ : RowIndex κ) key ∅ where
  mem_iff := by simp [rows]
  full := by
    intro k rows h
    simp at h

theorem Exact.add (h : Exact index key visits) {v : Visit} (hv : visits[v.id]? = none) :
    Exact (index.add (key v) v.id) key (visits.insert v.id v) where
  mem_iff := by
    intro k i
    rw [mem_rows_add, h.mem_iff, getElem?_insert]
    by_cases hi : v.id = i
    · subst hi
      simp [hv]
    · simp [hi]
  full := h.full.add _ _

theorem Exact.move (h : Exact index key visits) {old v : Visit} (hold : visits[v.id]? = some old) :
    Exact (RowIndex.move index (key old) (key v) v.id) key (visits.insert v.id v) := by
  unfold RowIndex.move
  split
  · next hsame =>
    refine ⟨fun k i => ?_, h.full⟩
    rw [h.mem_iff, getElem?_insert]
    by_cases hi : v.id = i
    · subst hi
      simp [hold, hsame]
    · simp [hi]
  · next hmoved =>
    refine ⟨fun k i => ?_, (h.full.add _ _).remove _ _⟩
    rw [mem_rows_remove, mem_rows_add, h.mem_iff, getElem?_insert]
    by_cases hi : v.id = i
    · subst hi
      simp only [hold, and_true, Option.some.injEq, exists_eq_left', if_true]
      constructor
      · rintro ⟨hne, hk | hk⟩
        · exact hk
        · exact absurd hk hne
      · rintro rfl
        exact ⟨hmoved, .inl rfl⟩
    · simp [hi]

theorem Exact.remove (h : Exact index key visits) {old : Visit} {id : UInt64}
    (hold : visits[id]? = some old) :
    Exact (RowIndex.remove index (key old) id) key (visits.erase id) where
  mem_iff := by
    intro k i
    rw [mem_rows_remove, h.mem_iff, getElem?_erase]
    by_cases hi : id = i
    · subst hi
      simp [hold]
    · simp [hi]
  full := h.full.remove _ _

omit [LawfulEqOrd κ] [DecidableEq κ] in
theorem Exact.contains_iff (h : Exact index key visits) (k : κ) :
    index.contains k ↔ ∃ (i : UInt64) (v : Visit), visits[i]? = some v ∧ key v = k := by
  rw [← ExtTreeMap.mem_iff_contains, ExtTreeMap.mem_iff_isSome_getElem?, Option.isSome_iff_exists]
  constructor
  · rintro ⟨rows, hrows⟩
    obtain ⟨i, hi⟩ : ∃ i, i ∈ rows := by
      by_contra hnone
      refine h.full k rows hrows (ExtTreeSet.ext_mem fun i => ?_)
      exact ⟨fun hi => absurd ⟨i, hi⟩ hnone, fun hi => absurd hi ExtTreeSet.not_mem_empty⟩
    exact ⟨i, (h.mem_iff k i).mp (by simpa [RowIndex.rows, hrows] using hi)⟩
  · rintro ⟨i, v, hv⟩
    have hi := (h.mem_iff k i).mpr ⟨v, hv⟩
    unfold RowIndex.rows at hi
    cases hrows : index[k]? with
    | none => simp [hrows] at hi
    | some rows => exact ⟨rows, rfl⟩

omit [LawfulEqOrd κ] in
/-- Looking rows up by a key gives the rows that have it, in the order of their ids. -/
theorem Exact.filterMap_ids (h : Exact index key visits) (hkeyed : Keyed Visit.id visits) (k : κ) :
    (index.ids k).filterMap (visits[·]?) = visits.values.filter fun v => key v = k := by
  have hids : (index.ids k).Pairwise fun a b => compare a b = .lt := by
    rw [ids_eq]
    exact ExtTreeSet.ordered_toList
  have hfound : Ascending Visit.id ((index.ids k).filterMap (visits[·]?)) := by
    refine List.Pairwise.filterMap _ ?_ hids
    intro a b hlt v hv w hw
    rw [hkeyed a v hv, hkeyed b w hw]
    exact hlt
  refine hfound.eq_of_mem_iff (hkeyed.ascending_values.sublist List.filter_sublist) fun v => ?_
  rw [List.mem_filterMap, List.mem_filter, hkeyed.mem_values]
  constructor
  · rintro ⟨i, hi, hv⟩
    rw [ids_eq, ExtTreeSet.mem_toList, h.mem_iff] at hi
    obtain ⟨w, hw, hk⟩ := hi
    cases hv.symm.trans hw
    exact ⟨by rwa [hkeyed i v hv], by simpa using hk⟩
  · rintro ⟨hv, hk⟩
    refine ⟨v.id, ?_, hv⟩
    rw [ids_eq, ExtTreeSet.mem_toList, h.mem_iff]
    exact ⟨v, hv, by simpa using hk⟩

end RowIndex

/-! ## The templates of a prison -/

namespace NameIndex

omit [LawfulEqOrd κ] [DecidableEq κ] in
theorem names_empty (k : κ) : names (∅ : NameIndex κ) k = [] := by
  simp [names]

theorem names_add (index : NameIndex κ) (key k : κ) (name : String) :
    (index.add key name).names k =
      if key = k ∧ name ∉ index.names k then index.names k ++ [name] else index.names k := by
  unfold add
  by_cases hname : (index.names key).contains name
  · rw [if_pos hname, if_neg]
    rintro ⟨rfl, hnew⟩
    exact hnew (by simpa using hname)
  · rw [if_neg hname]
    by_cases hk : key = k
    · subst hk
      rw [if_pos ⟨rfl, by simpa using hname⟩]
      simp [names]
    · rw [if_neg (by simp [hk])]
      simp [names, getElem?_insert, hk]

theorem names_remove (index : NameIndex κ) (key k : κ) (name : String) :
    (index.remove key name).names k =
      if key = k then (index.names k).filter (· != name) else index.names k := by
  unfold remove
  cases hold : index[key]? with
  | none =>
    by_cases hk : key = k
    · subst hk
      simp [names, hold]
    · simp [hk]
  | some old =>
    by_cases hk : key = k
    · subst hk
      by_cases hempty : (old.filter (· != name)).isEmpty
      · simp [names, hold, List.isEmpty_iff.mp hempty]
      · simp [hempty, names, hold]
    · by_cases hempty : (old.filter (· != name)).isEmpty
      · simp [hempty, names, getElem?_erase, hk]
      · simp [hempty, names, getElem?_insert, hk]

/-- The index lists the templates of each prison, each once. -/
structure Exact (index : NameIndex String) (templates : ExtTreeMap Reference SessionTemplate) :
    Prop where
  nodup : ∀ prison, (index.names prison).Nodup
  mem_iff : ∀ prison reference, reference ∈ index.names prison ↔
    ∃ t, templates[reference]? = some t ∧ t.prisonCode = prison

variable {index : NameIndex String} {templates : ExtTreeMap Reference SessionTemplate}

theorem Exact.save (h : Exact index templates) (t : SessionTemplate)
    (hfree : ∀ prison, t.reference ∈ index.names prison → prison = t.prisonCode) :
    Exact (index.add t.prisonCode t.reference) (templates.insert t.reference t) where
  nodup := by
    intro prison
    rw [names_add]
    split
    · next hnew =>
      exact List.nodup_append.mpr ⟨h.nodup prison, List.nodup_singleton _, fun a ha b hb hab =>
        hnew.2 (List.mem_singleton.mp hb ▸ hab ▸ ha)⟩
    · exact h.nodup prison
  mem_iff := by
    intro prison reference
    rw [names_add, getElem?_insert]
    by_cases hr : t.reference = reference
    · subst hr
      by_cases hp : t.prisonCode = prison
      · subst hp
        by_cases hmem : t.reference ∈ index.names t.prisonCode <;> simp [hmem]
      · have hout : t.reference ∉ index.names prison := fun hin => hp (hfree prison hin).symm
        simp [hp, hout]
    · rw [if_neg hr, ← h.mem_iff]
      split
      · simp [Ne.symm hr]
      · rfl

theorem Exact.remove (h : Exact index templates) {old : SessionTemplate} {reference : Reference}
    (hold : templates[reference]? = some old) :
    Exact (index.remove old.prisonCode reference) (templates.erase reference) where
  nodup := by
    intro prison
    rw [names_remove]
    split
    · exact (h.nodup prison).filter _
    · exact h.nodup prison
  mem_iff := by
    intro prison r
    rw [names_remove, getElem?_erase]
    by_cases hr : reference = r
    · subst hr
      have hin := h.mem_iff prison reference
      simp only [hold, Option.some.injEq, exists_eq_left'] at hin
      by_cases hp : old.prisonCode = prison <;> simp [hp, hin]
    · rw [if_neg hr, ← h.mem_iff]
      split
      · simp [Ne.symm hr]
      · rfl

end NameIndex

namespace Store

/-- Every index says what the rows say. -/
structure Indexed (s : Store) : Prop where
  byReference : s.visitsByReference.Exact Visit.reference s.visits
  byRoomDay : s.visitsByRoomDay.Exact Visit.roomDay s.visits
  byTemplate : s.visitsByTemplate.Exact Visit.sessionTemplateReference s.visits
  byApplication : ∀ application i, s.visitByApplication[application]? = some i →
    ∃ v : Visit, s.visits[i]? = some v ∧ v.applicationReference = application
  byPrison : NameIndex.Exact s.templatesByPrison s.templates

theorem indexed_empty : empty.Indexed where
  byReference := .empty
  byRoomDay := .empty
  byTemplate := .empty
  byApplication := by simp [empty]
  byPrison := by
    constructor
    · intro prison
      simp [empty, NameIndex.names_empty]
    · simp [empty, NameIndex.names_empty]

theorem Indexed.saveTemplate {s : Store} (h : s.Indexed) (hkeyed : s.rows.Keyed)
    (t : SessionTemplate) : (s.saveTemplate t).Indexed := by
  refine { h with byPrison := ?_ }
  unfold Store.saveTemplate
  cases hold : s.templates[t.reference]? with
  | none =>
    refine h.byPrison.save t fun prison hin => ?_
    obtain ⟨old, hstored, -⟩ := (h.byPrison.mem_iff prison t.reference).mp hin
    rw [hold] at hstored
    cases hstored
  | some old =>
    dsimp only
    split
    · next hprison =>
      refine h.byPrison.save t fun prison hin => ?_
      obtain ⟨found, hstored, hp⟩ := (h.byPrison.mem_iff prison t.reference).mp hin
      rw [hold] at hstored
      cases hstored
      rw [← hp, hprison]
    · -- the template has moved: it leaves its old prison before it enters the new one
      have hgone := h.byPrison.remove hold
      have hsaved := hgone.save t fun prison hin => by
        obtain ⟨found, hstored, -⟩ := (hgone.mem_iff prison t.reference).mp hin
        simp at hstored
      rw [insert_erase] at hsaved
      rw [hkeyed.templates t.reference old hold]
      exact hsaved

theorem Indexed.deleteTemplate {s : Store} (h : s.Indexed) (reference : Reference) :
    (s.deleteTemplate reference).Indexed := by
  unfold Store.deleteTemplate
  split
  · exact h
  · next old hold => exact { h with byPrison := h.byPrison.remove hold }

theorem getElem?_dropApplicationVisit (m : ExtTreeMap Reference UInt64)
    (application a : Reference) (id : UInt64) :
    (dropApplicationVisit m application id)[a]? =
      if application = a ∧ m[application]? = some id then none else m[a]? := by
  unfold dropApplicationVisit
  split
  · next hid => simp [getElem?_erase, hid]
  · next hid => simp [hid]

theorem Indexed.saveVisit {s : Store} (h : s.Indexed) (v : Visit) : (s.saveVisit v).Indexed := by
  unfold Store.saveVisit
  cases hold : s.visits[v.id]? with
  | none =>
    refine { h with
      byReference := h.byReference.add hold
      byRoomDay := h.byRoomDay.add hold
      byTemplate := h.byTemplate.add hold
      byApplication := ?_ }
    intro application i hi
    simp only [indexVisit, getElem?_insert] at hi ⊢
    split at hi
    · next ha =>
      cases hi
      exact ⟨v, by simp, ha⟩
    · obtain ⟨w, hw, ha⟩ := h.byApplication application i hi
      have hne : v.id ≠ i := by
        rintro rfl
        rw [hold] at hw
        cases hw
      exact ⟨w, by rwa [if_neg hne], ha⟩
  | some old =>
    refine { h with
      byReference := h.byReference.move hold
      byRoomDay := h.byRoomDay.move hold
      byTemplate := h.byTemplate.move hold
      byApplication := ?_ }
    intro application i hi
    simp only [reindexVisit, getElem?_insert] at hi ⊢
    split at hi
    · next hsame =>
      obtain ⟨w, hw, ha⟩ := h.byApplication application i hi
      by_cases hid : v.id = i
      · subst hid
        cases hold.symm.trans hw
        exact ⟨v, by simp, by rw [← hsame, ha]⟩
      · exact ⟨w, by rwa [if_neg hid], ha⟩
    · next hmoved =>
      rw [getElem?_dropApplicationVisit, getElem?_insert, getElem?_insert,
        if_neg (Ne.symm hmoved)] at hi
      split at hi
      · cases hi
      · next hkept =>
        split at hi
        · next ha =>
          cases hi
          exact ⟨v, by simp, ha⟩
        · obtain ⟨w, hw, ha⟩ := h.byApplication application i hi
          have hid : v.id ≠ i := by
            rintro rfl
            cases hold.symm.trans hw
            exact hkept ⟨ha, by rw [ha, hi]⟩
          exact ⟨w, by rwa [if_neg hid], ha⟩

theorem Indexed.deleteVisit {s : Store} (h : s.Indexed) (hkeyed : s.rows.Keyed) (id : UInt64) :
    (s.deleteVisit id).Indexed := by
  unfold Store.deleteVisit
  split
  · exact h
  · next old hold =>
    have hid : old.id = id := hkeyed.visits id old hold
    subst hid
    refine { h with
      byReference := h.byReference.remove hold
      byRoomDay := h.byRoomDay.remove hold
      byTemplate := h.byTemplate.remove hold
      byApplication := ?_ }
    intro application i hi
    simp only [unindexVisit, getElem?_dropApplicationVisit, getElem?_erase] at hi ⊢
    split at hi
    · cases hi
    · next hkept =>
      obtain ⟨w, hw, ha⟩ := h.byApplication application i hi
      have hne : old.id ≠ i := by
        rintro rfl
        cases hold.symm.trans hw
        exact hkept ⟨ha, by rw [ha, hi]⟩
      exact ⟨w, by rwa [if_neg hne], ha⟩

/-! ## All stores -/

/-- The rows stand under their own keys and the indexes say what the rows say. -/
structure Sound (s : Store) : Prop where
  keyed : s.rows.Keyed
  indexed : s.Indexed

theorem sound_empty : empty.Sound := ⟨Rows.keyed_empty, indexed_empty⟩

theorem Sound.apply {s : Store} (h : s.Sound) (r : Record) : (s.apply r).Sound := by
  refine ⟨by rw [rows_apply]; exact h.keyed.apply r, ?_⟩
  cases r with
  | groupSaved | groupDeleted | applicationSaved | applicationDeleted | audit =>
    exact { h.indexed with }
  | templateSaved t => exact h.indexed.saveTemplate h.keyed t
  | templateDeleted reference => exact h.indexed.deleteTemplate reference
  | visitSaved v => exact h.indexed.saveVisit v
  | visitDeleted id => exact h.indexed.deleteVisit h.keyed id

theorem Sound.applyCommit {s : Store} (h : s.Sound) (commit : Commit) :
    (s.applyCommit commit).Sound := by
  induction commit generalizing s with
  | nil => exact h
  | cons r commit ih => exact ih (h.apply r)

theorem sound_ofCommits (commits : List Commit) : (ofCommits commits).Sound := by
  suffices h : ∀ s : Store, s.Sound → (commits.foldl Store.applyCommit s).Sound from
    h _ sound_empty
  induction commits with
  | nil => exact fun s hs => hs
  | cons commit commits ih => exact fun s hs => ih _ (hs.applyCommit commit)

theorem Sound.takeVisitId {s : Store} (h : s.Sound) : s.takeVisitId.2.Sound :=
  ⟨h.keyed, { h.indexed with }⟩

variable {s : Store}

/-! ## Questions to the rows -/

theorem Sound.visitsForReference_eq (h : s.Sound) (reference : Reference) :
    s.visitsForReference reference = s.visits.values.filter fun v => v.reference = reference :=
  h.indexed.byReference.filterMap_ids h.keyed.visits reference

theorem Sound.visitsInRoomDay_eq (h : s.Sound) (roomDay : RoomDay) :
    s.visitsInRoomDay roomDay = s.visits.values.filter fun v => v.roomDay = roomDay :=
  h.indexed.byRoomDay.filterMap_ids h.keyed.visits roomDay

theorem Sound.visitsForTemplate_eq (h : s.Sound) (template : Reference) :
    s.visitsForTemplate template =
      s.visits.values.filter fun v => v.sessionTemplateReference = template :=
  h.indexed.byTemplate.filterMap_ids h.keyed.visits template

theorem Sound.mem_visits (h : s.Sound) {v : Visit} :
    v ∈ s.visits.values ↔ s.visits[v.id]? = some v :=
  h.keyed.visits.mem_values

theorem Sound.visitForApplication (h : s.Sound) {application : Reference} {v : Visit}
    (hv : s.visitForApplication? application = some v) :
    s.visits[v.id]? = some v ∧ v.applicationReference = application := by
  obtain ⟨i, hi, hrow⟩ := Option.bind_eq_some_iff.mp hv
  obtain ⟨w, hw, ha⟩ := h.indexed.byApplication application i hi
  cases hw.symm.trans hrow
  exact ⟨by rwa [h.keyed.visits i v hrow], ha⟩

theorem Sound.containsReference_iff (h : s.Sound) (reference : Reference) :
    s.containsReference reference = true ↔
      (∃ a, s.applications[reference]? = some a) ∨
      (∃ v : Visit, s.visits[v.id]? = some v ∧ v.reference = reference) ∨
      (∃ t, s.templates[reference]? = some t) ∨ ∃ g, s.groups[reference]? = some g := by
  have hvisit : s.visitsByReference.contains reference = true ↔
      ∃ v : Visit, s.visits[v.id]? = some v ∧ v.reference = reference := by
    rw [h.indexed.byReference.contains_iff]
    constructor
    · rintro ⟨i, v, hv, hr⟩
      exact ⟨v, by rwa [h.keyed.visits i v hv], hr⟩
    · rintro ⟨v, hv, hr⟩
      exact ⟨v.id, v, hv, hr⟩
  unfold containsReference
  rw [Bool.or_eq_true, Bool.or_eq_true, Bool.or_eq_true, hvisit]
  simp only [ExtTreeMap.contains_eq_isSome_getElem?, Option.isSome_iff_exists, or_assoc]

/-- No row has the reference. -/
structure Unused (s : Store) (reference : Reference) : Prop where
  application : s.rows.applications[reference]? = none
  visit : ∀ v : Visit, s.rows.visits[v.id]? = some v → v.reference ≠ reference
  template : s.rows.templates[reference]? = none
  group : s.rows.groups[reference]? = none

theorem Sound.unused (h : s.Sound) {reference : Reference}
    (hunused : s.containsReference reference = false) : s.Unused reference := by
  have hnone : ¬s.containsReference reference = true := by simp [hunused]
  rw [h.containsReference_iff] at hnone
  simp only [not_or, not_exists, not_and] at hnone
  obtain ⟨happlication, hvisit, htemplate, hgroup⟩ := hnone
  exact ⟨Option.eq_none_iff_forall_ne_some.mpr happlication, hvisit,
    Option.eq_none_iff_forall_ne_some.mpr htemplate, Option.eq_none_iff_forall_ne_some.mpr hgroup⟩

end Store

end PrisonVisits
