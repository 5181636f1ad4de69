import PrisonVisits.Proofs.AuditTrails
import PrisonVisits.Proofs.Pairing

/-! # Visit ids

The next visit id is not stored: a restart counts it up again from the visits that the journal
saves. A visit that was deleted still counts as long as the journal tells of it, which is until the
next compaction. So ids grow along a run, and none is given twice, unless the run restarts on a
journal that no longer tells the last one; and then the first id it gives out is an old one. -/

namespace PrisonVisits

open Rows

namespace Store

variable {s t : Store} {c : Commit} {n : UInt64}

/-! ## The next id behind a commit -/

theorem max_lt_iff {a b n : UInt64} : max a b < n ↔ a < n ∧ b < n := by
  simp only [UInt64.max_def, UInt64.lt_iff_toNat_lt]
  split <;> simp only [UInt64.le_iff_toNat_le] at * <;> omega

theorem max_le_iff {a b n : UInt64} : max a b ≤ n ↔ a ≤ n ∧ b ≤ n := by
  simp only [UInt64.max_def, UInt64.le_iff_toNat_le]
  split <;> omega

/-- The next id is the greatest of the one before and those behind the visits that are saved. -/
theorem nextVisitId_applyCommit_iff {P : UInt64 → Prop} (hmax : ∀ i j, P (max i j) ↔ P i ∧ P j) :
    P (s.applyCommit c).nextVisitId ↔
      P s.nextVisitId ∧ ∀ v, .visitSaved v ∈ c → P (v.id + 1) := by
  induction c generalizing s with
  | nil => simp [applyCommit]
  | cons r c ih =>
    change P ((s.apply r).applyCommit c).nextVisitId ↔ _
    rw [ih]
    by_cases hr : ∃ v, r = .visitSaved v
    · obtain ⟨v, rfl⟩ := hr
      have hnext : (s.apply (.visitSaved v)).nextVisitId = max s.nextVisitId (v.id + 1) := rfl
      rw [hnext, hmax]
      simp [and_assoc]
    · rw [not_exists] at hr
      have hnext : (s.apply r).nextVisitId = s.nextVisitId :=
        Desk.nextVisitId_applyCommit (c := [r]) fun v hv => hr v (List.mem_singleton.mp hv).symm
      have hmem : ∀ v, .visitSaved v ∈ r :: c ↔ .visitSaved v ∈ c := fun v =>
        List.mem_cons.trans (or_iff_right fun hv => hr v hv.symm)
      simp only [hnext, hmem]

theorem nextVisitId_applyCommit_lt : (s.applyCommit c).nextVisitId < n ↔
    s.nextVisitId < n ∧ ∀ v, .visitSaved v ∈ c → v.id + 1 < n :=
  nextVisitId_applyCommit_iff (P := (· < n)) fun _ _ => max_lt_iff

theorem nextVisitId_applyCommit_le : (s.applyCommit c).nextVisitId ≤ n ↔
    s.nextVisitId ≤ n ∧ ∀ v, .visitSaved v ∈ c → v.id + 1 ≤ n :=
  nextVisitId_applyCommit_iff (P := (· ≤ n)) fun _ _ => max_le_iff

theorem le_nextVisitId_applyCommit : s.nextVisitId ≤ (s.applyCommit c).nextVisitId :=
  (nextVisitId_applyCommit_le.mp (UInt64.le_refl _)).1

theorem succ_le_nextVisitId_applyCommit {v : Visit} (hv : .visitSaved v ∈ c) :
    v.id + 1 ≤ (s.applyCommit c).nextVisitId :=
  (nextVisitId_applyCommit_le.mp (UInt64.le_refl _)).2 v hv

theorem one_le_nextVisitId_applyCommit : 1 ≤ (empty.applyCommit c).nextVisitId :=
  le_nextVisitId_applyCommit (s := empty)

/-- A store that counts as far as another one does so behind a commit. -/
theorem nextVisitId_applyCommit_mono (h : s.nextVisitId ≤ t.nextVisitId) :
    (s.applyCommit c).nextVisitId ≤ (t.applyCommit c).nextVisitId :=
  nextVisitId_applyCommit_le.mpr ⟨UInt64.le_trans h le_nextVisitId_applyCommit,
    fun _ hv => succ_le_nextVisitId_applyCommit hv⟩

end Store

namespace Desk

variable {d : Desk} {a : Action} {actions : List Action} {x : Application}

/-! ## The ids of a run -/

/-- The id that the action gives to a new visit. -/
def newVisitId (d : Desk) (a : Action) : Option UInt64 :=
  (d.creates a).bind fun x =>
    ((d.perform a).store.visitForApplication? x.reference).map (·.id)

/-- The ids that a run gives to new visits, one after the other. -/
def visitIds : Desk → List Action → List UInt64
  | _, [] => []
  | d, a :: actions => (d.newVisitId a).toList ++ (d.perform a).visitIds actions

/-- Ids have been given out, and every visit that the journal saves has one below the last. -/
def ForgetsLastId (d : Desk) : Prop :=
  1 < d.store.nextVisitId ∧
    ∀ v, .visitSaved v ∈ d.journal.replay.flatten → v.id + 1 < d.store.nextVisitId

/-- The run restarts on a journal that has forgotten the last visit id, and gives out an id later.
-/
def ReusesIds : Desk → List Action → Prop
  | _, [] => False
  | d, a :: actions =>
    (a = .restart ∧ d.ForgetsLastId ∧ (d.perform a).visitIds actions ≠ []) ∨
      (d.perform a).ReusesIds actions

theorem restart_mem_of_reusesIds (h : d.ReusesIds actions) : .restart ∈ actions := by
  induction actions generalizing d with
  | nil => cases h
  | cons a actions ih =>
    rcases h with ⟨rfl, -⟩ | h
    · exact List.mem_cons_self
    · exact List.mem_cons_of_mem _ (ih h)

theorem store_perform_restart :
    (d.perform .restart).store = Store.empty.applyCommit d.journal.replay.flatten :=
  store_restart.trans (Store.foldl_applyCommit _ _)

/-- A journal has forgotten the last visit id if a restart counts less far. -/
theorem forgetsLastId_iff :
    d.ForgetsLastId ↔ (d.perform .restart).store.nextVisitId < d.store.nextVisitId := by
  rw [store_perform_restart, Store.nextVisitId_applyCommit_lt]
  rfl

/-! ## One action -/

theorem creates_of_granted {plan : Plan (Transition Unit)} {t : Transition Unit}
    (hplan : d.plan? a = some plan) (hgranted : d.granted plan = some t)
    (hstarts : a.starts = true) : (d.creates a).isSome = true := by
  cases a <;> cases hstarts <;> cases hplan <;> obtain ⟨_, hrun, -⟩ := run_of_granted hgranted
  case reserve =>
    change (d.transact (d.planReserve _)).1.toOption.isSome = true
    rw [answer_transact, hrun]
    rfl
  case change =>
    change (d.transact (d.planChange _)).1.toOption.isSome = true
    rw [answer_transact, hrun]
    rfl

/-- A reservation or change commits something only if it makes an application. -/
theorem creates_of_starts (hstarts : a.starts = true) (hsome : d.recordsOf a ≠ []) :
    (d.creates a).isSome = true := by
  cases hplan : d.plan? a with
  | none =>
    refine absurd (recordsOf_of_none hplan fun hexpire => ?_) hsome
    rw [hexpire] at hstarts
    cases hstarts
  | some plan =>
    cases hgranted : d.granted plan with
    | none => exact absurd (recordsOf_of_refused hplan hgranted) hsome
    | some t => exact creates_of_granted hplan hgranted hstarts

/-- Only a new visit is saved under the next id. -/
theorem succ_le_of_recordsOf (h : d.store.Linked) (hnone : d.creates a = none) {v : Visit}
    (hv : .visitSaved v ∈ d.recordsOf a) : v.id + 1 ≤ d.store.nextVisitId := by
  rcases d.recordsOf_cases a with hnil | hw | rfl
  · rw [hnil] at hv
    cases hv
  · rcases renewed_of_writes h hw hv with ⟨old, hold, hid, -⟩ | ⟨hstarts, -⟩
    · exact Store.succ_le_of_lt (hid ▸ h.below old hold)
    · have hsome := creates_of_starts hstarts (List.ne_nil_of_mem hv)
      rw [hnone] at hsome
      cases hsome
  · rw [recordsOf_expire] at hv
    exact absurd hv (no_visit_expiryCommits d _ v)

theorem newVisitId_of_creates (hafter : (d.perform a).store.Linked) (h : d.creates a = some x) :
    d.newVisitId a = some d.store.nextVisitId := by
  obtain ⟨o, hrecords, -⟩ := start_of_creates h
  have hrestart : a ≠ .restart := by
    rintro rfl
    cases h
  have hrow : (d.perform a).store.rows.HasVisit (x.draftVisit d.store.nextVisitId o d.now) := by
    rw [rows_perform hrestart, hrecords]
    exact hasVisit_visitSaved.mpr (.inl rfl)
  have hfound := hafter.visitForApplication?_eq hrow (x.isDraft_draftVisit ..)
  rw [newVisitId, h]
  exact congrArg (Option.map Visit.id) hfound

/-- What becomes of the next visit id. -/
inductive Counts (d : Desk) (a : Action) : Prop
  /-- A new visit takes it. -/
  | takes (given : d.newVisitId a = some d.store.nextVisitId)
      (next : (d.perform a).store.nextVisitId = d.store.nextVisitId + 1)
  | keeps (given : d.newVisitId a = none)
      (next : (d.perform a).store.nextVisitId = d.store.nextVisitId)
  /-- It is counted up again. -/
  | recounts (restarts : a = .restart) (given : d.newVisitId a = none)

theorem counts_perform (h : d.store.Linked) (hids : d.store.nextVisitId + 1 ≠ 0)
    (hafter : (d.perform a).store.Linked) : d.Counts a := by
  by_cases hrestart : a = .restart
  · subst hrestart
    exact .recounts rfl rfl
  cases hcreates : d.creates a with
  | none =>
    refine .keeps (by rw [newVisitId, hcreates]; rfl) ?_
    rw [store_perform hrestart hids]
    refine UInt64.le_antisymm (Store.nextVisitId_applyCommit_le.mpr ⟨UInt64.le_refl _, ?_⟩)
      Store.le_nextVisitId_applyCommit
    exact fun v hv => succ_le_of_recordsOf h hcreates hv
  | some x =>
    refine .takes (newVisitId_of_creates hafter hcreates) ?_
    obtain ⟨o, hrecords, -⟩ := start_of_creates hcreates
    rw [store_perform hrestart hids, hrecords]
    refine UInt64.le_antisymm (Store.nextVisitId_applyCommit_le.mpr ⟨?_, fun v hv => ?_⟩) ?_
    · exact UInt64.le_of_lt (Store.lt_succ_of_ne_zero hids)
    · rw [saved_of_start hv]
      exact UInt64.le_refl _
    · exact Store.succ_le_nextVisitId_applyCommit
        (v := x.draftVisit d.store.nextVisitId o d.now) (by simp [start])

/-! ## Ids that grow -/

/-- As long as restarts count as far as the desk did, ids are at least the next one and grow. -/
theorem visitIds_pairwise (hlinked : d.Throughout (fun d => d.store.Linked) actions)
    (hrange : d.Throughout InRange actions) (hnot : ¬d.ReusesIds actions) :
    (d.visitIds actions).Pairwise (· < ·) ∧ ∀ i ∈ d.visitIds actions, d.store.nextVisitId ≤ i := by
  induction actions generalizing d with
  | nil => exact ⟨.nil, fun i hi => by cases hi⟩
  | cons a actions ih =>
    obtain ⟨hnow, hlater⟩ := not_or.mp hnot
    obtain ⟨hgrow, hbound⟩ := ih hlinked.2 hrange.2 hlater
    rw [visitIds]
    cases counts_perform hlinked.1 hrange.1.ids hlinked.2.head with
    | takes given next =>
      have hless := Store.lt_succ_of_ne_zero hrange.1.ids
      rw [next] at hbound
      rw [given, Option.toList_some, List.singleton_append]
      refine ⟨List.pairwise_cons.mpr ⟨fun i hi => ?_, hgrow⟩, List.forall_mem_cons.mpr ?_⟩
      · exact UInt64.lt_of_lt_of_le hless (hbound i hi)
      · exact ⟨UInt64.le_refl _, fun i hi =>
          UInt64.le_trans (UInt64.le_of_lt hless) (hbound i hi)⟩
    | keeps given next =>
      rw [given, Option.toList_none, List.nil_append, ← next]
      exact ⟨hgrow, hbound⟩
    | recounts restarts given =>
      subst restarts
      rw [given, Option.toList_none, List.nil_append]
      refine ⟨hgrow, fun i hi => UInt64.le_trans ?_ (hbound i hi)⟩
      refine UInt64.not_lt.mp fun hless => hnow ⟨rfl, forgetsLastId_iff.mpr hless, ?_⟩
      exact List.ne_nil_of_mem hi

/-! ## Ids that come again -/

/-- A restart gives the rows back and counts no further than the desk has. -/
structure CountsNoFurther (d : Desk) : Prop where
  faithful : d.Faithful
  first : 1 ≤ d.store.nextVisitId
  rebuilt : (d.perform .restart).store.nextVisitId ≤ d.store.nextVisitId

/-- The visits of a snapshot are stored, so their ids are below the next. -/
theorem nextVisitId_snapshot (h : d.store.Linked) (hfirst : 1 ≤ d.store.nextVisitId) :
    (Store.empty.applyCommit d.store.snapshot.flatten).nextVisitId ≤ d.store.nextVisitId := by
  refine Store.nextVisitId_applyCommit_le.mpr ⟨hfirst, fun v hv => ?_⟩
  obtain ⟨c, hc, hv⟩ := List.mem_flatten.mp hv
  exact Store.succ_le_of_lt (h.below v (Store.mem_snapshot h.sound hc hv))

theorem CountsNoFurther.compact (h : d.CountsNoFurther) (hlinked : d.store.Linked)
    (hids : d.store.nextVisitId + 1 ≠ 0) (hfits : d.Fits .compact) :
    (d.perform .compact).CountsNoFurther := by
  cases hblocked : d.compactionBlocked with
  | true =>
    rw [perform_compact_of_blocked hblocked]
    exact h
  | false =>
    have hstore : (d.perform .compact).store = d.store := store_perform nofun hids
    refine ⟨h.faithful.perform hfits, ?_, ?_⟩
    · rw [hstore]
      exact h.first
    · rw [store_perform_restart, replay_compact hblocked (hfits.snapshot rfl), hstore]
      exact nextVisitId_snapshot hlinked h.first

theorem CountsNoFurther.restart (h : d.CountsNoFurther) (hfits : d.Fits .restart) :
    (d.perform .restart).CountsNoFurther := by
  refine ⟨h.faithful.perform hfits, ?_, ?_⟩
  · rw [store_perform_restart]
    exact Store.one_le_nextVisitId_applyCommit
  · have hnothing : d.commitsOf .restart = [] := commitsOf_of_none rfl nofun
    rw [store_perform_restart, h.faithful.replay_perform hfits nofun, hnothing, List.append_nil,
      ← store_perform_restart]
    exact UInt64.le_refl _

theorem CountsNoFurther.perform (h : d.CountsNoFurther) (hlinked : d.store.Linked)
    (hids : d.store.nextVisitId + 1 ≠ 0) (hfits : d.Fits a) : (d.perform a).CountsNoFurther := by
  by_cases hcompact : a = .compact
  · subst hcompact
    exact h.compact hlinked hids hfits
  by_cases hrestart : a = .restart
  · subst hrestart
    exact h.restart hfits
  have hstore := store_perform hrestart hids
  refine ⟨h.faithful.perform hfits, ?_, ?_⟩
  · rw [hstore]
    exact UInt64.le_trans h.first Store.le_nextVisitId_applyCommit
  · -- live and rebuilt, the store takes the same records
    rw [store_perform_restart, h.faithful.replay_perform hfits hcompact, List.flatten_append,
      Store.applyCommit_append, ← store_perform_restart, hstore]
    exact Store.nextVisitId_applyCommit_mono h.rebuilt

section

variable (hlinked : d.Throughout (fun d => d.store.Linked) actions)
  (hrange : d.Throughout InRange actions) (hfits : d.Along Fits actions)

include hlinked hrange hfits

/-- The first id that is given out is the next one at most. -/
theorem exists_visitId_le (h : d.CountsNoFurther) (hsome : d.visitIds actions ≠ []) :
    ∃ i ∈ d.visitIds actions, 1 ≤ i ∧ i ≤ d.store.nextVisitId := by
  induction actions generalizing d with
  | nil => exact absurd rfl hsome
  | cons a actions ih =>
    have hthen := ih hlinked.2 hrange.2 hfits.2 (h.perform hlinked.1 hrange.1.ids hfits.1)
    rw [visitIds] at hsome ⊢
    cases counts_perform hlinked.1 hrange.1.ids hlinked.2.head with
    | takes given next =>
      rw [given]
      exact ⟨_, List.mem_cons_self, h.first, UInt64.le_refl _⟩
    | keeps given next =>
      rw [given, Option.toList_none, List.nil_append] at hsome ⊢
      rw [← next]
      exact hthen hsome
    | recounts restarts given =>
      rw [given, Option.toList_none, List.nil_append] at hsome ⊢
      subst restarts
      obtain ⟨i, hi, hfirst, hle⟩ := hthen hsome
      exact ⟨i, hi, hfirst, UInt64.le_trans hle h.rebuilt⟩

/-- If all ids below the next have been given out, a restart that counts less far is followed by an
id that comes again. -/
theorem not_nodup_of_reusesIds (h : d.CountsNoFurther) (past : List UInt64)
    (hpast : ∀ i, 1 ≤ i → i < d.store.nextVisitId → i ∈ past) (hreuses : d.ReusesIds actions) :
    ¬(past ++ d.visitIds actions).Nodup := by
  induction actions generalizing d past with
  | nil => cases hreuses
  | cons a actions ih =>
    have hafter := h.perform hlinked.1 hrange.1.ids hfits.1
    rw [visitIds, ← List.append_assoc]
    rcases hreuses with ⟨rfl, hforgets, hsome⟩ | hlater
    · obtain ⟨i, hi, hfirst, hle⟩ := exists_visitId_le hlinked.2 hrange.2 hfits.2 hafter hsome
      have hold := hpast i hfirst (UInt64.lt_of_le_of_lt hle (forgetsLastId_iff.mp hforgets))
      intro hnodup
      exact (List.nodup_append.mp hnodup).2.2 i (List.mem_append_left _ hold) i hi rfl
    · refine ih hlinked.2 hrange.2 hfits.2 hafter _ (fun i hfirst hless => ?_) hlater
      cases counts_perform hlinked.1 hrange.1.ids hlinked.2.head with
      | takes given next =>
        rw [given, List.mem_append, Option.toList_some, List.mem_singleton]
        rw [next] at hless
        by_cases hlast : i = d.store.nextVisitId
        · exact .inr hlast
        · refine .inl (hpast i hfirst ?_)
          exact UInt64.lt_of_le_of_ne (UInt64.not_lt.mp fun hnext =>
            UInt64.not_lt.mpr (Store.succ_le_of_lt hnext) hless) hlast
      | keeps given next =>
        rw [next] at hless
        exact List.mem_append_left _ (hpast i hfirst hless)
      | recounts restarts =>
        subst restarts
        exact List.mem_append_left _ (hpast i hfirst (UInt64.lt_of_lt_of_le hless h.rebuilt))

end

/-- Without a compaction the journal tells every id that was given out. -/
theorem not_reusesIds_of_uncompacted (h : d.Faithful) (hrange : d.Throughout InRange actions)
    (hfits : d.Along Fits actions) (hcompact : ∀ a ∈ actions, a ≠ .compact)
    (hsame : Store.ofCommits d.journal.replay = d.store) : ¬d.ReusesIds actions := by
  induction actions generalizing d with
  | nil => exact id
  | cons a actions ih =>
    obtain ⟨ha, hactions⟩ := List.forall_mem_cons.mp hcompact
    refine not_or.mpr ⟨fun hnow => ?_, ?_⟩
    · obtain ⟨rfl, hforgets, -⟩ := hnow
      have hless := forgetsLastId_iff.mp hforgets
      change (d.restart .none).store.nextVisitId < _ at hless
      rw [store_restart, hsame] at hless
      exact UInt64.lt_irrefl _ hless
    · exact ih (h.perform hfits.1) hrange.2 hfits.2 hactions
        (ofCommits_perform_eq h hrange.1.ids hfits.1 ha hsame)

theorem countsNoFurther_openOn (policy : BookingPolicy) (now : Moment)
    (prisoners : Std.ExtTreeMap String PrisonerContext) (references : ReferenceSource) :
    (openOn #[] policy now prisoners references).CountsNoFurther := by
  refine ⟨faithful_openOn [] rfl (by simp) policy now prisoners references, ?_, ?_⟩
  · rw [store_openOn_nil]
    exact UInt64.le_refl _
  · have hrestart : ((openOn #[] policy now prisoners references).perform .restart).store =
        (openOn #[] policy now prisoners references).store := store_restart
    rw [hrestart]
    exact UInt64.le_refl _

/-- Along a run from an empty journal visit ids grow, and none is given twice, exactly if no restart
that is followed by a new visit finds a journal that has forgotten the last id. A run without
compactions has no such restart. A run with restarts takes commits that fit their length fields. -/
theorem visitIds_grow_iff (policy : BookingPolicy) (now : Moment)
    (prisoners : Std.ExtTreeMap String PrisonerContext) (references : ReferenceSource)
    (actions : List Action)
    (hrange : (openOn #[] policy now prisoners references).Throughout InRange actions)
    (hfits : .restart ∈ actions →
      (openOn #[] policy now prisoners references).Along Fits actions) :
    let d := openOn #[] policy now prisoners references
    ((d.visitIds actions).Pairwise (· < ·) ↔ ¬d.ReusesIds actions) ∧
      ((d.visitIds actions).Nodup ↔ ¬d.ReusesIds actions) ∧
      ((∀ a ∈ actions, a ≠ .compact) → ¬d.ReusesIds actions) := by
  intro d
  have hlinked := linked_throughout hrange
  have hcounts : d.CountsNoFurther := countsNoFurther_openOn policy now prisoners references
  have hnodup : (d.visitIds actions).Nodup → ¬d.ReusesIds actions := by
    intro hnodup hreuses
    have hstore : d.store = .empty := store_openOn_nil policy now prisoners references
    refine not_nodup_of_reusesIds hlinked hrange (hfits (restart_mem_of_reusesIds hreuses))
      hcounts [] (fun i hfirst hless => ?_) hreuses hnodup
    rw [hstore] at hless
    exact absurd hless (UInt64.not_lt.mpr hfirst)
  have hgrow : ¬d.ReusesIds actions → (d.visitIds actions).Pairwise (· < ·) :=
    fun hnot => (visitIds_pairwise hlinked hrange hnot).1
  have hdistinct : (d.visitIds actions).Pairwise (· < ·) → (d.visitIds actions).Nodup :=
    List.Pairwise.imp UInt64.ne_of_lt
  refine ⟨⟨fun h => hnodup (hdistinct h), hgrow⟩, ⟨hnodup, fun h => hdistinct (hgrow h)⟩, ?_⟩
  intro hcompact hreuses
  exact not_reusesIds_of_uncompacted hcounts.faithful hrange
    (hfits (restart_mem_of_reusesIds hreuses)) hcompact rfl hreuses

end Desk

namespace Sample

/-- The only draft of the small run is discarded. -/
def emptied : List Action := actions ++ [.discard "c" "clerk"]

/-- The discarded draft is compacted away, and another one is reserved behind a restart. -/
def reissue : List Action := emptied ++ [.compact, .restart, .reserve reservation]

theorem along_emptied : desk.Along (Desk.AppendsAtMost 1000) emptied := by
  refine ⟨⟨nofun, ?_, ?_⟩, ⟨nofun, ?_, ?_⟩, ⟨nofun, ?_, ?_⟩, ⟨nofun, ?_, ?_⟩, trivial⟩
  all_goals decide +kernel

theorem legible_emptied :
    ∀ c ∈ (desk.run emptied).store.snapshot, Journal.legible c = true := by
  decide +kernel

/-- The desk behind the restart. -/
def reopened : Desk :=
  { desk.run emptied with
    journal := .ofBytes (Journal.entries (desk.run emptied).store.snapshot).toArray
    store := .ofCommits (desk.run emptied).store.snapshot }

theorem run_reopened : ((desk.run emptied).perform .compact).perform .restart = reopened :=
  Desk.restart_compact (by decide +kernel) legible_emptied

theorem along_reopened : reopened.Along (Desk.AppendsAtMost 1000) [.reserve reservation] := by
  refine ⟨⟨nofun, ?_, ?_⟩, trivial⟩
  all_goals decide +kernel

theorem fits_reissue : desk.Along Desk.Fits reissue := by
  refine Desk.along_append.mpr ⟨along_emptied.imp fun _ _ h => h.fits (by decide), ?_⟩
  refine ⟨⟨by decide +kernel, fun _ => legible_emptied⟩, ⟨by decide +kernel, nofun⟩, ?_⟩
  rw [run_reopened]
  exact along_reopened.imp fun _ _ h => h.fits (by decide)

theorem inRange_reissue : desk.Throughout Desk.InRange reissue := by
  have hfirst : desk.Throughout Desk.InRange emptied :=
    Desk.throughout_inRange (m := 0) (by decide) (by decide +kernel) along_emptied (by decide)
  have hlater : reopened.Throughout Desk.InRange [.reserve reservation] :=
    Desk.throughout_inRange (m := 1000) (by decide +kernel) (by decide +kernel) along_reopened
      (by decide)
  rw [← run_reopened] at hlater
  refine Desk.throughout_append.mpr ⟨hfirst, hfirst.last, ⟨?_, by decide +kernel⟩, hlater⟩
  exact (congrArg Array.size Desk.restart_bytes).symm.trans_lt hlater.head.bytes

end Sample

/-- Both drafts of the run are given id 1. -/
theorem Desk.visitIds_grow_iff_reissue :
    Sample.desk.visitIds Sample.reissue = [1, 1] ∧ Sample.desk.ReusesIds Sample.reissue := by
  have hids : Sample.desk.visitIds Sample.reissue = [1, 1] := by
    change _ ++ (_ ++ (_ ++ (_ ++ (_ ++ (_ ++
      ((((Sample.desk.run Sample.emptied).perform .compact).perform .restart).visitIds
        [.reserve Sample.reservation])))))) = _
    rw [Sample.run_reopened]
    decide +kernel
  have hiff := (visitIds_grow_iff Sample.policy _ _ Sample.letters Sample.reissue
    Sample.inRange_reissue fun _ => Sample.fits_reissue).2.1
  refine ⟨hids, Classical.not_not.mp fun hnot => ?_⟩
  have hnodup : (Sample.desk.visitIds Sample.reissue).Nodup := hiff.mpr hnot
  rw [hids] at hnodup
  exact absurd hnodup (by decide)

end PrisonVisits
