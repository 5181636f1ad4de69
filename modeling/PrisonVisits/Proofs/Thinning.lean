import PrisonVisits.Proofs.BookingSteps

/-! # Stores that gain no visits

The row indexes of a sound store follow from its rows. Three things do not: the counter, the order
in which the templates of a prison are listed, and which of several visits of one application the
index finds. Where records only renew or delete visits these follow from the store before: the first
two stay, and the index loses the visits that are no longer stored. So of two ways from one store
that end in the same rows, both end in the same store. -/

namespace PrisonVisits

open Std Table Rows

/-! ## What the rows determine -/

section

variable {κ : Type} [Ord κ] [TransOrd κ] [LawfulEqOrd κ] {index index' : RowIndex κ}
  {key : Visit → κ} {visits : ExtTreeMap UInt64 Visit}

omit [LawfulEqOrd κ] in
theorem RowIndex.Full.subset (h : index.Full) (hrows : ∀ k, index.rows k = index'.rows k) (k : κ)
    {ids : ExtTreeSet UInt64} (hk : index[k]? = some ids) : index'[k]? = some ids := by
  have hsame := hrows k
  rw [rows, rows, hk, Option.getD_some] at hsame
  cases hk' : index'[k]? with
  | none =>
    rw [hk', Option.getD_none] at hsame
    exact absurd hsame (h k ids hk)
  | some ids' =>
    rw [hk', Option.getD_some] at hsame
    rw [hsame]

theorem RowIndex.Exact.unique (h : Exact index key visits) (h' : Exact index' key visits) :
    index = index' := by
  have hrows : ∀ k, index.rows k = index'.rows k := fun k =>
    ExtTreeSet.ext_mem fun i => (h.mem_iff k i).trans (h'.mem_iff k i).symm
  refine ExtTreeMap.ext_getElem? fun k => Option.ext fun ids => ⟨fun hk => ?_, fun hk => ?_⟩
  · exact h.full.subset hrows k hk
  · exact h'.full.subset (fun k => (hrows k).symm) k hk

end

namespace Store

variable {s s' s'' t : Store}

theorem Sound.eq_of_rows (hs : s.Sound) (ht : t.Sound) (hrows : s.rows = t.rows)
    (hprison : s.templatesByPrison = t.templatesByPrison)
    (hfound : s.visitByApplication = t.visitByApplication)
    (hnext : s.nextVisitId = t.nextVisitId) : s = t := by
  have hvisits : s.visits = t.visits := congrArg Rows.visits hrows
  have hbooking : s.visitsByReference = t.visitsByReference :=
    hs.indexed.byReference.unique (hvisits ▸ ht.indexed.byReference)
  have hroom : s.visitsByRoomDay = t.visitsByRoomDay :=
    hs.indexed.byRoomDay.unique (hvisits ▸ ht.indexed.byRoomDay)
  have htemplate : s.visitsByTemplate = t.visitsByTemplate :=
    hs.indexed.byTemplate.unique (hvisits ▸ ht.indexed.byTemplate)
  have hgroups : s.groups = t.groups := congrArg Rows.groups hrows
  have htemplates : s.templates = t.templates := congrArg Rows.templates hrows
  have happlications : s.applications = t.applications := congrArg Rows.applications hrows
  have haudits : s.audits = t.audits := congrArg Rows.audits hrows
  cases s
  cases t
  simp only at *
  subst_vars
  rfl

/-! ## Stores with fewer visits -/

/-- The later store has no visit ids that the earlier one has not, and it finds the visits of
applications as before, but for those that are gone. -/
structure Thinned (s s' : Store) : Prop where
  byPrison : s'.templatesByPrison = s.templatesByPrison
  nextVisitId : s'.nextVisitId = s.nextVisitId
  gone : ∀ id : UInt64, s.visits[id]? = none → s'.visits[id]? = none
  found : ∀ application : Reference, s'.visitByApplication[application]? =
    s.visitByApplication[application]?.filter fun id => (s'.visits[id]?).isSome

theorem Thinned.of_visits (h : s.Sound) (hbyPrison : s'.templatesByPrison = s.templatesByPrison)
    (hnext : s'.nextVisitId = s.nextVisitId)
    (hvisits : ∀ id : UInt64, (s'.visits[id]?).isSome = (s.visits[id]?).isSome)
    (hfound : s'.visitByApplication = s.visitByApplication) : s.Thinned s' where
  byPrison := hbyPrison
  nextVisitId := hnext
  gone := by
    intro id hnone
    have hsome := hvisits id
    rw [hnone, Option.isSome_none, Option.isSome_eq_false_iff, Option.isNone_iff_eq_none] at hsome
    exact hsome
  found := by
    intro application
    rw [hfound]
    cases hid : s.visitByApplication[application]? with
    | none => rfl
    | some id =>
      obtain ⟨v, hv, -⟩ := h.indexed.byApplication application id hid
      rw [Option.filter_some, hvisits, hv, Option.isSome_some, if_pos rfl]

theorem Thinned.refl (h : s.Sound) : s.Thinned s := .of_visits h rfl rfl (fun _ => rfl) rfl

theorem Thinned.trans (h : s.Thinned s') (h' : s'.Thinned s'') : s.Thinned s'' where
  byPrison := h'.byPrison.trans h.byPrison
  nextVisitId := h'.nextVisitId.trans h.nextVisitId
  gone := fun id hid => h'.gone id (h.gone id hid)
  found := by
    intro application
    rw [h'.found, h.found, Option.filter_filter]
    congr
    funext id
    cases hmiddle : s'.visits[id]? with
    | none => rw [h'.gone id hmiddle, Bool.and_self]
    | some v => exact Bool.true_and _

/-- Thinning the same store to the same rows gives the same store. -/
theorem Thinned.unique (h : s.Thinned s') (h' : s.Thinned t) (hs' : s'.Sound) (ht : t.Sound)
    (hrows : s'.rows = t.rows) : s' = t := by
  have hvisits : s'.visits = t.visits := congrArg Rows.visits hrows
  refine hs'.eq_of_rows ht hrows (h.byPrison.trans h'.byPrison.symm)
    (ExtTreeMap.ext_getElem? fun application => ?_) (h.nextVisitId.trans h'.nextVisitId.symm)
  rw [h.found, h'.found, hvisits]

theorem Thinned.idsBelow (h : s.Thinned s') (hbelow : s.IdsBelow) (hkeyed : s.rows.Keyed) :
    s'.IdsBelow := by
  intro v hv
  rw [h.nextVisitId]
  cases hold : s.visits[v.id]? with
  | none =>
    rw [HasVisit] at hv
    exact absurd (hv.symm.trans (h.gone v.id hold)) (Option.some_ne_none v)
  | some old =>
    have hid : old.id = v.id := hkeyed.visits v.id old hold
    rw [← hid]
    exact hbelow old (by rwa [HasVisit, hid])

/-! ## Records that renew or delete visits -/

theorem max_succ_of_lt {a b : UInt64} (h : a < b) : max b (a + 1) = b := by
  rw [show max b (a + 1) = if b ≤ a + 1 then a + 1 else b from rfl]
  split
  · next hle => exact UInt64.le_antisymm (succ_le_of_lt h) hle
  · rfl

/-- A visit that is saved again keeps its id and its application. -/
theorem thinned_visitSaved (h : s.Sound) (hbelow : s.IdsBelow) {v old : Visit}
    (hold : s.rows.HasVisit old) (hid : old.id = v.id)
    (happlication : old.applicationReference = v.applicationReference) :
    s.Thinned (s.saveVisit v) := by
  have hstored : s.visits[v.id]? = some old := by
    rw [← hid]
    exact hold
  have hnext : max s.nextVisitId (v.id + 1) = s.nextVisitId :=
    max_succ_of_lt (hid ▸ hbelow old hold)
  refine .of_visits h ?_ ?_ (fun id => ?_) ?_
  · simp only [saveVisit, hstored, reindexVisit]
  · simp only [saveVisit, hstored, reindexVisit, hnext]
  · simp only [saveVisit, getElem?_insert]
    split
    · next hsame => rw [← hsame, hstored, Option.isSome_some, Option.isSome_some]
    · rfl
  · simp only [saveVisit, hstored, reindexVisit, happlication, if_true]

theorem thinned_visitDeleted (h : s.Sound) (id : UInt64) : s.Thinned (s.deleteVisit id) := by
  unfold deleteVisit
  split
  · exact .refl h
  · next old hold =>
    have hid : old.id = id := h.keyed.visits id old hold
    subst hid
    refine ⟨rfl, rfl, fun i hi => ?_, fun application => ?_⟩
    · simp only [getElem?_erase, hi, ite_self]
    · simp only [unindexVisit, getElem?_dropApplicationVisit, getElem?_erase]
      cases hfound : s.visitByApplication[application]? with
      | none => simp
      | some i =>
        obtain ⟨v, hv, hown⟩ := h.indexed.byApplication application i hfound
        by_cases hi : old.id = i
        · -- the index led to the visit, so the visit is of the application
          subst hi
          cases hold.symm.trans hv
          rw [if_pos ⟨hown, by rw [hown, hfound]⟩, Option.filter_some, if_pos rfl]
          rfl
        · rw [if_neg, Option.filter_some, if_neg hi, hv, Option.isSome_some, if_pos rfl]
          rintro ⟨rfl, hsame⟩
          exact hi (Option.some.inj (hsame.symm.trans hfound))

end Store

/-- The commit is about bookings. Visits that it saves are stored already, for the same
applications, and it deletes none of them. -/
structure Rows.Renews (t : Rows) (c : Commit) : Prop where
  ofBooking : ∀ r ∈ c, r.ofBooking = true
  renewed : ∀ v, .visitSaved v ∈ c → ∃ old, t.HasVisit old ∧ old.id = v.id ∧
    old.applicationReference = v.applicationReference
  kept : ∀ v, .visitSaved v ∈ c → .visitDeleted v.id ∉ c

theorem Rows.Renews.tail {t : Rows} {r : Record} {c : Commit} (h : t.Renews (r :: c)) :
    (t.apply r).Renews c where
  ofBooking := fun r' hr' => h.ofBooking r' (List.mem_cons_of_mem _ hr')
  renewed := by
    intro v hv
    obtain ⟨old, hold, hid, happlication⟩ := h.renewed v (List.mem_cons_of_mem _ hv)
    cases r with
    | groupSaved | groupDeleted | templateSaved | templateDeleted | applicationSaved
    | applicationDeleted | audit => exact ⟨old, hold, hid, happlication⟩
    | visitSaved w =>
      by_cases hw : w.id = v.id
      · -- both renew the same visit
        obtain ⟨old', hold', hid', happlication'⟩ := h.renewed w List.mem_cons_self
        rw [hold'.unique hold (hid'.trans (hw.trans hid.symm))] at happlication'
        exact ⟨w, hasVisit_visitSaved.mpr (.inl rfl), hw, happlication'.symm.trans happlication⟩
      · exact ⟨old, hasVisit_visitSaved.mpr (.inr ⟨fun hsame => hw (hsame.symm.trans hid), hold⟩),
          hid, happlication⟩
    | visitDeleted id =>
      refine ⟨old, hasVisit_visitDeleted.mpr ⟨fun hsame => ?_, hold⟩, hid, happlication⟩
      refine h.kept v (List.mem_cons_of_mem _ hv) ?_
      rw [← hid, hsame]
      exact List.mem_cons_self
  kept := fun v hv hdeleted =>
    h.kept v (List.mem_cons_of_mem _ hv) (List.mem_cons_of_mem _ hdeleted)

namespace Store

variable {s : Store}

theorem thinned_apply (h : s.Sound) (hbelow : s.IdsBelow) {r : Record} {c : Commit}
    (hc : s.rows.Renews (r :: c)) : s.Thinned (s.apply r) := by
  cases r with
  | groupSaved | groupDeleted | templateSaved | templateDeleted =>
    cases hc.ofBooking _ List.mem_cons_self
  | applicationSaved | applicationDeleted | audit => exact .of_visits h rfl rfl (fun _ => rfl) rfl
  | visitSaved v =>
    obtain ⟨old, hold, hid, happlication⟩ := hc.renewed v List.mem_cons_self
    exact thinned_visitSaved h hbelow hold hid happlication
  | visitDeleted id => exact thinned_visitDeleted h id

theorem thinned_applyCommit (h : s.Sound) (hbelow : s.IdsBelow) {c : Commit}
    (hc : s.rows.Renews c) : s.Thinned (s.applyCommit c) := by
  induction c generalizing s with
  | nil => exact .refl h
  | cons r c ih =>
    have hfirst := thinned_apply h hbelow hc
    refine hfirst.trans (ih (h.apply r) (hfirst.idsBelow hbelow h.keyed) ?_)
    rw [rows_apply]
    exact hc.tail

end Store

end PrisonVisits
