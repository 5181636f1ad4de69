import PrisonVisits.Proofs.StoreIndexes

/-! # Snapshots

The commits of a snapshot build the rows of the store again, table by table, in whatever order the
rows of a table come. A snapshot of which only the first commits can be read builds the first tables
and leaves the others empty. -/

namespace PrisonVisits

open Std Table

namespace Rows

/-! ## Saving whole tables -/

theorem applyCommit_groups (t : Rows) (groups : List HierarchyGroup) :
    t.applyCommit (groups.map .groupSaved) =
      { t with groups := saveAll HierarchyGroup.reference t.groups groups } := by
  induction groups generalizing t with
  | nil => rfl
  | cons g groups ih => exact ih _

theorem applyCommit_templates (t : Rows) (templates : List SessionTemplate) :
    t.applyCommit (templates.map .templateSaved) =
      { t with templates := saveAll SessionTemplate.reference t.templates templates } := by
  induction templates generalizing t with
  | nil => rfl
  | cons g templates ih => exact ih _

theorem applyCommit_applications (t : Rows) (applications : List Application) :
    t.applyCommit (applications.map .applicationSaved) =
      { t with applications := saveAll Application.reference t.applications applications } := by
  induction applications generalizing t with
  | nil => rfl
  | cons g applications ih => exact ih _

theorem applyCommit_visits (t : Rows) (visits : List Visit) :
    t.applyCommit (visits.map .visitSaved) =
      { t with visits := saveAll Visit.id t.visits visits } := by
  induction visits generalizing t with
  | nil => rfl
  | cons g visits ih => exact ih _

theorem applyCommit_audits (t : Rows) (audits : List EventAudit) :
    t.applyCommit (audits.map .audit) = { t with audits := audits.foldl addAudit t.audits } := by
  induction audits generalizing t with
  | nil => rfl
  | cons g audits ih => exact ih _

/-! ## Audits -/

theorem getElem?_foldl_addAudit (audits : List EventAudit)
    (m : ExtTreeMap Reference (List EventAudit)) (reference : Reference) :
    (audits.foldl addAudit m)[reference]?.getD [] =
      m[reference]?.getD [] ++ audits.filter fun a => a.bookingReference = reference := by
  induction audits generalizing m with
  | nil => simp
  | cons a audits ih =>
    rw [List.foldl_cons, ih]
    unfold addAudit
    rw [getElem?_insert]
    by_cases ha : a.bookingReference = reference <;> simp [ha]

theorem ne_nil_foldl_addAudit {audits : List EventAudit}
    {m : ExtTreeMap Reference (List EventAudit)} (h : ∀ (r : Reference) l, m[r]? = some l → l ≠ [])
    (reference : Reference) (l : List EventAudit)
    (hl : (audits.foldl addAudit m)[reference]? = some l) : l ≠ [] := by
  induction audits generalizing m with
  | nil => exact h reference l hl
  | cons a audits ih =>
    refine ih (fun r l' hl' => ?_) hl
    unfold addAudit at hl'
    rw [getElem?_insert] at hl'
    split at hl'
    · cases hl'
      simp
    · exact h r l' hl'

/-- Among lists of audits of different bookings, a booking's audits are its own list. -/
theorem filter_flatten_audits {l : List (Reference × List EventAudit)}
    (hl : ∀ p ∈ l, ∀ a ∈ p.2, a.bookingReference = p.1) (hkeys : (l.map Prod.fst).Nodup)
    {reference : Reference} {audits : List EventAudit} (hmem : (reference, audits) ∈ l) :
    ((l.map Prod.snd).flatten.filter fun a => a.bookingReference = reference) = audits := by
  induction l with
  | nil => cases hmem
  | cons p l ih =>
    obtain ⟨hp, hrest⟩ := List.forall_mem_cons.mp hl
    obtain ⟨hnew, hnodup⟩ := List.nodup_cons.mp hkeys
    rw [List.map_cons, List.flatten_cons, List.filter_append]
    rcases List.mem_cons.mp hmem with rfl | hmem
    · have hown : audits.filter (fun a => a.bookingReference = reference) = audits :=
        List.filter_eq_self.mpr fun a ha => decide_eq_true (hp a ha)
      have hothers : (l.map Prod.snd).flatten.filter
          (fun a => a.bookingReference = reference) = [] := by
        refine List.filter_eq_nil_iff.mpr fun a ha hr => ?_
        obtain ⟨as, has, ha⟩ := List.mem_flatten.mp ha
        obtain ⟨q, hq, rfl⟩ := List.mem_map.mp has
        rw [hrest q hq a ha] at hr
        exact hnew (List.mem_map.mpr ⟨q, hq, of_decide_eq_true hr⟩)
      rw [hown, hothers, List.append_nil]
    · have hothers : p.2.filter (fun a => a.bookingReference = reference) = [] := by
        refine List.filter_eq_nil_iff.mpr fun a ha hr => ?_
        rw [hp a ha] at hr
        exact hnew (of_decide_eq_true hr ▸ List.mem_map_of_mem hmem)
      rw [hothers, List.nil_append, ih hrest hnodup hmem]

/-- The audits build their table again, in any order of the bookings. -/
theorem Keyed.foldl_addAudit {t : Rows} (h : t.Keyed)
    {bookings : List (Reference × List EventAudit)} (hbookings : bookings.Perm t.audits.toList) :
    (bookings.map Prod.snd).flatten.foldl addAudit ∅ = t.audits := by
  have hstored : ∀ {p : Reference × List EventAudit}, p ∈ bookings ↔ t.audits[p.1]? = some p.2 :=
    hbookings.mem_iff.trans ExtTreeMap.mem_toList_iff_getElem?_eq_some
  have hown : ∀ p ∈ bookings, ∀ a ∈ p.2, EventAudit.bookingReference a = p.1 :=
    fun p hp => (h.audits p.1 p.2 (hstored.mp hp)).2
  have hkeys : (bookings.map Prod.fst).Nodup := by
    rw [(hbookings.map Prod.fst).nodup_iff, ExtTreeMap.map_fst_toList_eq_keys]
    exact ExtTreeMap.nodup_keys
  refine ExtTreeMap.ext_getElem? fun r => ?_
  have hsame : ((bookings.map Prod.snd).flatten.foldl addAudit ∅)[r]?.getD [] =
      t.audits[r]?.getD [] := by
    rw [getElem?_foldl_addAudit, ExtTreeMap.getElem?_empty, Option.getD_none, List.nil_append]
    cases hr : t.audits[r]? with
    | some l => exact filter_flatten_audits hown hkeys (hstored.mpr hr)
    | none =>
      refine List.filter_eq_nil_iff.mpr fun a ha hreference => ?_
      obtain ⟨l, hl, ha⟩ := List.mem_flatten.mp ha
      obtain ⟨p, hp, rfl⟩ := List.mem_map.mp hl
      have hlist := hstored.mp hp
      rw [← hown p hp a ha, of_decide_eq_true hreference, hr] at hlist
      cases hlist
  -- a list that is there is not empty, so the lists tell what is there
  have hfull : ∀ l, ((bookings.map Prod.snd).flatten.foldl addAudit ∅)[r]? = some l → l ≠ [] :=
    ne_nil_foldl_addAudit (by simp) r
  have hkept : ∀ l, t.audits[r]? = some l → l ≠ [] := fun l hl => (h.audits r l hl).1
  cases hleft : ((bookings.map Prod.snd).flatten.foldl addAudit ∅)[r]? <;>
    cases hright : t.audits[r]? <;> simp_all

/-! ## The rows of a snapshot -/

/-- The first so many tables. -/
def first (t : Rows) (n : Nat) : Rows where
  groups := if 1 ≤ n then t.groups else ∅
  templates := if 2 ≤ n then t.templates else ∅
  applications := if 3 ≤ n then t.applications else ∅
  visits := if 4 ≤ n then t.visits else ∅
  audits := if 5 ≤ n then t.audits else ∅

theorem first_all {t : Rows} {n : Nat} (h : 5 ≤ n) : t.first n = t := by
  unfold first
  rw [if_pos (by omega), if_pos (by omega), if_pos (by omega), if_pos (by omega), if_pos h]

/-- The rows of the tables in the order in which a snapshot comes to them. -/
structure Reading where
  groups : List HierarchyGroup
  templates : List SessionTemplate
  applications : List Application
  visits : List Visit
  bookings : List (Reference × List EventAudit)

namespace Reading

/-- The commits of a snapshot, the empty ones among them. -/
def parts (r : Reading) : List Commit :=
  [r.groups.map .groupSaved, r.templates.map .templateSaved,
    r.applications.map .applicationSaved, r.visits.map .visitSaved,
    (r.bookings.map Prod.snd).flatten.map .audit]

def commits (r : Reading) : List Commit := r.parts.filter fun c => !c.isEmpty

/-- The reading comes to all rows of the tables: to visits by id and to the audits of a booking as
they were recorded, but to groups, templates, applications and bookings in any order. -/
structure Of (r : Reading) (t : Rows) : Prop where
  groups : r.groups.Perm t.groups.values
  templates : r.templates.Perm t.templates.values
  applications : r.applications.Perm t.applications.values
  visits : r.visits = t.visits.values
  bookings : r.bookings.Perm t.audits.toList

theorem Of.applyCommit_take_parts {r : Reading} {t : Rows} (hr : r.Of t) (h : t.Keyed) (n : Nat) :
    Store.empty.rows.applyCommit (r.parts.take n).flatten = t.first n := by
  have hgroups := h.groups.saveAll_of_perm hr.groups
  have htemplates := h.templates.saveAll_of_perm hr.templates
  have happlications := h.applications.saveAll_of_perm hr.applications
  have hvisits := h.visits.saveAll_of_perm (.of_eq hr.visits)
  have haudits := h.foldl_addAudit hr.bookings
  rcases n with _ | _ | _ | _ | _ | n
  all_goals
    simp only [parts, List.take_succ_cons, List.take_zero, List.take_nil, List.flatten_cons,
      List.flatten_nil, List.append_nil, applyCommit_append, applyCommit_groups,
      applyCommit_templates, applyCommit_applications, applyCommit_visits, applyCommit_audits]
    simp [Store.rows, Store.empty, applyCommit_nil, first, hgroups, htemplates, happlications,
      hvisits, haudits]

end Reading

/-- Every table in the order of its keys. -/
def byKey (t : Rows) : Reading :=
  ⟨t.groups.values, t.templates.values, t.applications.values, t.visits.values, t.audits.toList⟩

theorem byKey_of (t : Rows) : t.byKey.Of t := ⟨.refl _, .refl _, .refl _, rfl, .refl _⟩

theorem Keyed.first {t : Rows} (h : t.Keyed) (n : Nat) : (t.first n).Keyed := by
  rw [← t.byKey_of.applyCommit_take_parts h]
  exact keyed_empty.applyCommit _

end Rows

open Rows

namespace Store

theorem rows_ofCommits (commits : List Commit) :
    (ofCommits commits).rows = empty.rows.applyCommit commits.flatten := by
  rw [ofCommits, foldl_applyCommit, rows_applyCommit]

theorem rows_ofCommits_append (earlier later : List Commit) :
    (ofCommits (earlier ++ later)).rows = (ofCommits earlier).rows.applyCommit later.flatten := by
  rw [rows_ofCommits, rows_ofCommits, List.flatten_append, Rows.applyCommit_append]

theorem flatten_take_filter (l : List Commit) (n : Nat) :
    ∃ m, n ≤ m ∧ ((l.filter fun c => !c.isEmpty).take n).flatten = (l.take m).flatten := by
  induction l generalizing n with
  | nil => exact ⟨n, Nat.le_refl n, by simp⟩
  | cons c l ih =>
    by_cases hc : c = []
    · obtain ⟨m, hm, heq⟩ := ih n
      exact ⟨m + 1, Nat.le_succ_of_le hm, by simpa [hc] using heq⟩
    · cases n with
      | zero => exact ⟨0, Nat.le_refl 0, rfl⟩
      | succ n =>
        obtain ⟨m, hm, heq⟩ := ih n
        exact ⟨m + 1, Nat.succ_le_succ hm, by simp [hc, heq]⟩

/-- A snapshot comes to the rows by their keys. -/
theorem snapshot_eq (s : Store) : s.snapshot = s.rows.byKey.commits := by
  unfold snapshot
  rw [values_eq s.audits]
  rfl

variable {r : Reading} {t : Rows}

/-- The first commits of a snapshot build the first tables. -/
theorem rows_ofCommits_take (hr : r.Of t) (h : t.Keyed) (n : Nat) :
    ∃ m, n ≤ m ∧ (r.commits.take n).flatten = (r.parts.take m).flatten ∧
      (ofCommits (r.commits.take n)).rows = t.first m := by
  obtain ⟨m, hm, heq⟩ := flatten_take_filter r.parts n
  have hflat : (r.commits.take n).flatten = (r.parts.take m).flatten := heq
  exact ⟨m, hm, hflat, by rw [rows_ofCommits, hflat, hr.applyCommit_take_parts h]⟩

/-- In any order a whole snapshot builds the rows. -/
theorem rows_ofCommits_commits (hr : r.Of t) (h : t.Keyed) : (ofCommits r.commits).rows = t := by
  obtain ⟨m, hm, -, hrows⟩ := rows_ofCommits_take hr h (max 5 r.commits.length)
  rw [List.take_of_length_le (Nat.le_max_right ..)] at hrows
  rw [hrows, Rows.first_all (by omega)]

theorem rows_ofCommits_snapshot {s : Store} (h : s.rows.Keyed) :
    (ofCommits s.snapshot).rows = s.rows := by
  rw [snapshot_eq]
  exact rows_ofCommits_commits s.rows.byKey_of h

end Store

end PrisonVisits
