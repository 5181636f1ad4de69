import PrisonVisits.Proofs.Requests
import PrisonVisits.Proofs.Snapshots

/-! # Drafts and their applications

Every draft belongs to a stored application that is not completed and says the same as the draft,
and it is the latest visit of that application. Whatever an action commits keeps this, and so does a
snapshot, even one that cannot be read to its end. The index from applications to visits finds every
draft. -/

namespace PrisonVisits

open Std Table

/-- The visit is the draft that the application calls for. -/
structure Application.Drafts (a : Application) (v : Visit) : Prop where
  application : v.applicationReference = a.reference
  booking : v.reference = a.bookingReference
  prison : v.prisonCode = a.prisonCode
  prisoner : v.prisonerId = a.prisonerId
  template : v.sessionTemplateReference = a.sessionTemplateReference
  restriction : v.restriction = a.restriction
  date : v.date = a.sessionDate
  status : v.status = a.kind.draftStatus
  contact : v.contact = a.contact
  visitors : v.visitors = a.visitors
  support : v.support = a.support

theorem Application.Drafts.isDraft {a : Application} {v : Visit} (h : a.Drafts v) :
    v.isDraft = true := by
  unfold Visit.isDraft
  rw [h.status]
  cases a.kind <;> rfl

namespace Rows

/-- The visit is stored. -/
def HasVisit (t : Rows) (v : Visit) : Prop := t.visits[v.id]? = some v

variable {t : Rows} {v w : Visit}

theorem HasVisit.unique (hv : t.HasVisit v) (hw : t.HasVisit w) (hid : v.id = w.id) : v = w := by
  unfold HasVisit at hv hw
  rw [hid, hw] at hv
  exact (Option.some.inj hv).symm

theorem not_hasVisit_empty (v : Visit) : ¬Store.empty.rows.HasVisit v := by
  simp [HasVisit, Store.rows, Store.empty]

theorem hasVisit_visitSaved :
    (t.apply (.visitSaved w)).HasVisit v ↔ v = w ∨ v.id ≠ w.id ∧ t.HasVisit v := by
  unfold HasVisit
  simp only [apply, getElem?_insert]
  by_cases hid : w.id = v.id
  · rw [if_pos hid]
    constructor
    · intro h
      exact .inl (Option.some.inj h).symm
    · rintro (rfl | ⟨hne, -⟩)
      · rfl
      · exact absurd hid.symm hne
  · rw [if_neg hid]
    constructor
    · exact fun h => .inr ⟨Ne.symm hid, h⟩
    · rintro (rfl | ⟨-, h⟩)
      · exact absurd rfl hid
      · exact h

theorem hasVisit_visitDeleted {id : UInt64} :
    (t.apply (.visitDeleted id)).HasVisit v ↔ v.id ≠ id ∧ t.HasVisit v := by
  unfold HasVisit
  simp only [apply, getElem?_erase]
  by_cases hid : id = v.id
  · simp [hid]
  · simp [hid, Ne.symm hid]

/-- What is true of the stored visits and of those that a commit saves is true of the visits it
leaves. -/
theorem hasVisit_applyCommit {q : Visit → Prop} {c : Commit} (ht : ∀ v, t.HasVisit v → q v)
    (hc : ∀ v, .visitSaved v ∈ c → q v) (hv : (t.applyCommit c).HasVisit v) : q v := by
  induction c generalizing t with
  | nil => exact ht v hv
  | cons r c ih =>
    refine ih (fun w hw => ?_) (fun w hw => hc w (List.mem_cons_of_mem _ hw)) hv
    cases r with
    | groupSaved | groupDeleted | templateSaved | templateDeleted | applicationSaved
    | applicationDeleted | audit => exact ht w hw
    | visitSaved x =>
      rcases hasVisit_visitSaved.mp hw with rfl | ⟨-, hw⟩
      · exact hc w List.mem_cons_self
      · exact ht w hw
    | visitDeleted id => exact ht w (hasVisit_visitDeleted.mp hw).2

/-! ## The links -/

/-- Every draft has its application, and no later visit of that application is stored. -/
structure Linked (t : Rows) : Prop where
  keyed : t.Keyed
  application : ∀ v, t.HasVisit v → v.isDraft = true →
    ∃ a, t.applications[v.applicationReference]? = some a ∧ a.completed = false ∧ a.Drafts v
  latest : ∀ v w, t.HasVisit v → v.isDraft = true → t.HasVisit w →
    w.applicationReference = v.applicationReference → w.id ≤ v.id

theorem Linked.draft_unique (h : t.Linked) (hv : t.HasVisit v) (hvd : v.isDraft = true)
    (hw : t.HasVisit w) (hwd : w.isDraft = true)
    (hsame : v.applicationReference = w.applicationReference) : v = w :=
  hv.unique hw (UInt64.le_antisymm (h.latest w v hw hwd hv hsame)
    (h.latest v w hv hvd hw hsame.symm))

theorem linked_empty : Store.empty.rows.Linked where
  keyed := keyed_empty
  application := fun v hv => absurd hv (not_hasVisit_empty v)
  latest := fun v _ hv => absurd hv (not_hasVisit_empty v)

/-- The links are between visits and applications. -/
theorem Linked.of_same (h : t.Linked) {t' : Rows} (hkeyed : t'.Keyed)
    (hvisits : t'.visits = t.visits) (happlications : t'.applications = t.applications) :
    t'.Linked where
  keyed := hkeyed
  application := by
    unfold HasVisit
    rw [hvisits, happlications]
    exact h.application
  latest := by
    unfold HasVisit
    rw [hvisits]
    exact h.latest

/-- No draft belongs to the application. -/
def Undrafted (t : Rows) (application : Reference) : Prop :=
  ∀ v, t.HasVisit v → v.isDraft = true → v.applicationReference ≠ application

theorem Linked.undrafted (h : t.Linked) {application : Reference}
    (hunused : t.applications[application]? = none) : t.Undrafted application := by
  rintro v hv hdraft rfl
  obtain ⟨a, ha, -⟩ := h.application v hv hdraft
  rw [hunused] at ha
  cases ha

theorem Linked.applicationSaved (h : t.Linked) {a : Application} (hfree : t.Undrafted a.reference) :
    (t.apply (.applicationSaved a)).Linked where
  keyed := h.keyed.apply _
  application := by
    intro v hv hdraft
    obtain ⟨b, hb, hrest⟩ := h.application v hv hdraft
    refine ⟨b, ?_, hrest⟩
    simp only [apply, getElem?_insert]
    rw [if_neg (fun heq => hfree v hv hdraft heq.symm)]
    exact hb
  latest := h.latest

theorem Linked.applicationDeleted (h : t.Linked) {application : Reference}
    (hfree : t.Undrafted application) : (t.apply (.applicationDeleted application)).Linked where
  keyed := h.keyed.apply _
  application := by
    intro v hv hdraft
    obtain ⟨b, hb, hrest⟩ := h.application v hv hdraft
    refine ⟨b, ?_, hrest⟩
    simp only [apply, getElem?_erase]
    rw [if_neg (fun heq => hfree v hv hdraft heq.symm)]
    exact hb
  latest := h.latest

theorem Linked.visitDeleted (h : t.Linked) (id : UInt64) : (t.apply (.visitDeleted id)).Linked where
  keyed := h.keyed.apply _
  application := by
    intro v hv hdraft
    exact h.application v (hasVisit_visitDeleted.mp hv).2 hdraft
  latest := by
    intro v w hv hdraft hw
    exact h.latest v w (hasVisit_visitDeleted.mp hv).2 hdraft (hasVisit_visitDeleted.mp hw).2

/-- A visit that is booked or cancelled takes the place of an older state of it. -/
theorem Linked.visitSettled (h : t.Linked) {old : Visit} (hold : t.HasVisit old)
    (hid : w.id = old.id) (happlication : w.applicationReference = old.applicationReference)
    (hsettled : w.isDraft = false) : (t.apply (.visitSaved w)).Linked where
  keyed := h.keyed.apply _
  application := by
    intro v hv hdraft
    rcases hasVisit_visitSaved.mp hv with rfl | ⟨-, hv⟩
    · rw [hsettled] at hdraft
      cases hdraft
    · exact h.application v hv hdraft
  latest := by
    intro v x hv hdraft hx hsame
    rcases hasVisit_visitSaved.mp hv with rfl | ⟨-, hv'⟩
    · rw [hsettled] at hdraft
      cases hdraft
    · rcases hasVisit_visitSaved.mp hx with rfl | ⟨-, hx'⟩
      · rw [hid]
        exact h.latest v old hv' hdraft hold (by rw [← happlication, hsame])
      · exact h.latest v x hv' hdraft hx' hsame

/-- A draft is added for an application that has none. -/
theorem Linked.draftAdded (h : t.Linked) {a : Application} (hfree : t.Undrafted a.reference)
    (ha : t.applications[a.reference]? = some a) (hopen : a.completed = false)
    (hdrafts : a.Drafts w) (hlater : ∀ v, t.HasVisit v → v.id < w.id) :
    (t.apply (.visitSaved w)).Linked where
  keyed := h.keyed.apply _
  application := by
    intro v hv hdraft
    rcases hasVisit_visitSaved.mp hv with rfl | ⟨-, hv⟩
    · exact ⟨a, by rw [hdrafts.application]; exact ha, hopen, hdrafts⟩
    · exact h.application v hv hdraft
  latest := by
    intro v x hv hdraft hx hsame
    rcases hasVisit_visitSaved.mp hv with rfl | ⟨-, hv'⟩
    · rcases hasVisit_visitSaved.mp hx with rfl | ⟨-, hx'⟩
      · exact UInt64.le_refl _
      · exact UInt64.le_of_lt (hlater x hx')
    · rcases hasVisit_visitSaved.mp hx with rfl | ⟨-, hx'⟩
      · exact absurd (hsame ▸ hdrafts.application) (hfree v hv' hdraft)
      · exact h.latest v x hv' hdraft hx' hsame

/-- An application and its draft change together. -/
theorem Linked.draftMoved (h : t.Linked) {a : Application} (hopen : a.completed = false)
    (hdrafts : a.Drafts w) (hv : t.HasVisit v) (hvd : v.isDraft = true) (hid : w.id = v.id)
    (happlication : w.applicationReference = v.applicationReference) :
    ((t.apply (.applicationSaved a)).apply (.visitSaved w)).Linked where
  keyed := (h.keyed.apply _).apply _
  application := by
    intro x hx hdraft
    rcases hasVisit_visitSaved.mp hx with rfl | ⟨hne, hx⟩
    · refine ⟨a, ?_, hopen, hdrafts⟩
      simp [apply, hdrafts.application]
    · obtain ⟨b, hb, hrest⟩ := h.application x hx hdraft
      refine ⟨b, ?_, hrest⟩
      -- the application of another draft is another one
      have hother : a.reference ≠ x.applicationReference := by
        intro heq
        have hsame := h.draft_unique hx hdraft hv hvd
          (by rw [← heq, ← hdrafts.application, happlication])
        exact hne (by rw [hsame, hid])
      simp only [apply, getElem?_insert]
      rw [if_neg hother]
      exact hb
  latest := by
    intro x y hx hdraft hy hsame
    rcases hasVisit_visitSaved.mp hx with rfl | ⟨-, hx'⟩
    · rcases hasVisit_visitSaved.mp hy with rfl | ⟨-, hy'⟩
      · exact UInt64.le_refl _
      · rw [hid]
        exact h.latest v y hv hvd hy' (by rw [hsame, happlication])
    · rcases hasVisit_visitSaved.mp hy with rfl | ⟨-, hy'⟩
      · rw [hid]
        exact h.latest x v hx' hdraft hv (by rw [← happlication, hsame])
      · exact h.latest x y hx' hdraft hy' hsame

theorem Linked.audit (h : t.Linked) (a : EventAudit) : (t.apply (.audit a)).Linked :=
  h.of_same (h.keyed.apply _) rfl rfl

/-- A saved visit takes the place of one of the same application, a draft that of a draft, or it is
new and no draft of its application is stored. -/
def Orderly (t : Rows) (r : Record) : Prop :=
  ∀ v, r = .visitSaved v →
    (∃ old, t.HasVisit old ∧ old.id = v.id ∧ old.applicationReference = v.applicationReference ∧
      (v.isDraft = true → old.isDraft = true)) ∨
    t.visits[v.id]? = none ∧ t.Undrafted v.applicationReference

def OrderlyCommit (t : Rows) : Commit → Prop
  | [] => True
  | r :: commit => t.Orderly r ∧ (t.apply r).OrderlyCommit commit

theorem orderlyCommit_cons {r : Record} {commit : Commit} :
    t.OrderlyCommit (r :: commit) ↔ t.Orderly r ∧ (t.apply r).OrderlyCommit commit := Iff.rfl

theorem orderlyCommit_append {earlier later : Commit} :
    t.OrderlyCommit (earlier ++ later) ↔
      t.OrderlyCommit earlier ∧ (t.applyCommit earlier).OrderlyCommit later := by
  induction earlier generalizing t with
  | nil => simp [OrderlyCommit, applyCommit_nil]
  | cons r earlier ih => simp [OrderlyCommit, applyCommit_cons, ih, and_assoc]

theorem orderly_of_no_visit {commit : Commit} (h : ∀ v, .visitSaved v ∉ commit) :
    t.OrderlyCommit commit := by
  induction commit generalizing t with
  | nil => trivial
  | cons r commit ih =>
    refine ⟨?_, ih fun v hv => h v (List.mem_cons_of_mem _ hv)⟩
    rintro v rfl
    exact absurd List.mem_cons_self (h v)

end Rows

/-! ## The index from applications to visits -/

namespace Store

open Rows

/-- The index finds every draft. -/
def Found (s : Store) : Prop :=
  ∀ v, s.rows.HasVisit v → v.isDraft = true →
    s.visitByApplication[v.applicationReference]? = some v.id

/-- The ids of the stored visits have been given out. -/
def IdsBelow (s : Store) : Prop := ∀ v, s.rows.HasVisit v → v.id < s.nextVisitId

/-- The index finds every visit of a kind. -/
def Finds (s : Store) (kind : Visit → Prop) : Prop :=
  ∀ v, s.rows.HasVisit v → kind v → s.visitByApplication[v.applicationReference]? = some v.id

/-- A saved visit is found if it takes the place of one of its kind and of its application, or if it
is new and no other visit of the kind is of its application. -/
theorem Finds.apply {s : Store} {kind : Visit → Prop} (h : s.Finds kind) (hkeyed : s.rows.Keyed)
    {r : Record} (hr : ∀ v, r = .visitSaved v →
      (∃ old, s.rows.HasVisit old ∧ old.id = v.id ∧
        old.applicationReference = v.applicationReference ∧ (kind v → kind old)) ∨
      s.rows.visits[v.id]? = none ∧ ∀ w, s.rows.HasVisit w → kind w →
        w.applicationReference ≠ v.applicationReference) : (s.apply r).Finds kind := by
  intro w hw hkind
  rw [rows_apply] at hw
  cases r with
  | groupSaved | groupDeleted | templateSaved | applicationSaved | applicationDeleted | audit =>
    exact h w hw hkind
  | templateDeleted reference =>
    change (s.deleteTemplate reference).visitByApplication[w.applicationReference]? = _
    unfold deleteTemplate
    split <;> exact h w hw hkind
  | visitSaved v =>
    change (s.saveVisit v).visitByApplication[w.applicationReference]? = _
    unfold saveVisit
    rcases hr v rfl with ⟨old, hold, hid, happlication, hsame⟩ | ⟨hnew, hfree⟩
    · have hstored : s.visits[v.id]? = some old := by rw [← hid]; exact hold
      simp only [hstored, reindexVisit, happlication, if_true]
      rcases hasVisit_visitSaved.mp hw with rfl | ⟨-, hw⟩
      · rw [← hid, ← happlication]
        exact h old hold (hsame hkind)
      · exact h w hw hkind
    · have hstored : s.visits[v.id]? = none := hnew
      simp only [hstored, indexVisit, getElem?_insert]
      rcases hasVisit_visitSaved.mp hw with rfl | ⟨-, hw⟩
      · simp
      · rw [if_neg (fun heq => hfree w hw hkind heq.symm)]
        exact h w hw hkind
  | visitDeleted id =>
    obtain ⟨hne, hw⟩ := hasVisit_visitDeleted.mp hw
    change (s.deleteVisit id).visitByApplication[w.applicationReference]? = _
    unfold deleteVisit
    split
    · exact h w hw hkind
    · next old hold =>
      have hid : old.id = id := hkeyed.visits id old hold
      simp only [unindexVisit, getElem?_dropApplicationVisit]
      rw [if_neg, h w hw hkind]
      rintro ⟨happlication, hfound⟩
      rw [happlication, h w hw hkind, hid] at hfound
      exact hne (Option.some.inj hfound)

theorem Found.apply {s : Store} (h : s.Found) (hkeyed : s.rows.Keyed) {r : Record}
    (hr : s.rows.Orderly r) : (s.apply r).Found := by
  have hfinds : s.Finds fun v => v.isDraft = true := h
  exact hfinds.apply hkeyed hr

theorem Found.applyCommit {s : Store} (h : s.Found) (hsound : s.Sound) {commit : Commit}
    (hcommit : s.rows.OrderlyCommit commit) : (s.applyCommit commit).Found := by
  induction commit generalizing s with
  | nil => exact h
  | cons r commit ih =>
    refine ih (h.apply hsound.keyed hcommit.1) (hsound.apply r) ?_
    rw [rows_apply]
    exact hcommit.2

theorem lt_max_of_lt_left {a b c : UInt64} (h : a < b) : a < max b c := by
  rw [show max b c = if b ≤ c then c else b from rfl]
  split
  · next hle => exact UInt64.lt_of_lt_of_le h hle
  · exact h

theorem lt_max_of_lt_right {a b c : UInt64} (h : a < c) : a < max b c := by
  rw [show max b c = if b ≤ c then c else b from rfl]
  split
  · exact h
  · next hle => exact UInt64.lt_trans h (UInt64.not_le.mp hle)

theorem lt_succ_of_ne_zero {i : UInt64} (h : i + 1 ≠ 0) : i < i + 1 := by
  refine UInt64.lt_add_one fun hlast => h ?_
  rw [hlast]
  rfl

theorem succ_le_of_lt {a b : UInt64} (h : a < b) : a + 1 ≤ b := by
  rw [UInt64.lt_iff_toNat_lt] at h
  rw [UInt64.le_iff_toNat_le, UInt64.toNat_add]
  exact Nat.le_trans (Nat.mod_le _ _) h

theorem IdsBelow.apply {s : Store} (h : s.IdsBelow) {r : Record}
    (hr : ∀ v, r = .visitSaved v → v.id + 1 ≠ 0) : (s.apply r).IdsBelow := by
  intro w hw
  rw [rows_apply] at hw
  cases r with
  | groupSaved | groupDeleted | templateSaved | applicationSaved | applicationDeleted | audit =>
    exact h w hw
  | templateDeleted reference =>
    change w.id < (s.deleteTemplate reference).nextVisitId
    unfold deleteTemplate
    split <;> exact h w hw
  | visitSaved v =>
    change w.id < max s.nextVisitId (v.id + 1)
    rcases hasVisit_visitSaved.mp hw with rfl | ⟨-, hw⟩
    · exact lt_max_of_lt_right (lt_succ_of_ne_zero (hr w rfl))
    · exact lt_max_of_lt_left (h w hw)
  | visitDeleted id =>
    have hw := (hasVisit_visitDeleted.mp hw).2
    change w.id < (s.deleteVisit id).nextVisitId
    unfold deleteVisit
    split <;> exact h w hw

theorem IdsBelow.applyCommit {s : Store} (h : s.IdsBelow) {commit : Commit}
    (hcommit : ∀ v, .visitSaved v ∈ commit → v.id + 1 ≠ 0) : (s.applyCommit commit).IdsBelow := by
  induction commit generalizing s with
  | nil => exact h
  | cons r commit ih =>
    refine ih (h.apply ?_) fun v hv => hcommit v (List.mem_cons_of_mem _ hv)
    rintro v rfl
    exact hcommit v List.mem_cons_self

/-- No visit has the next id. -/
theorem IdsBelow.absent {s : Store} (h : s.IdsBelow) (hkeyed : s.rows.Keyed) :
    s.rows.visits[s.nextVisitId]? = none := by
  refine Option.eq_none_iff_forall_ne_some.mpr fun v hv => ?_
  have hid : v.id = s.nextVisitId := hkeyed.visits _ v hv
  refine UInt64.lt_irrefl v.id (hid ▸ h v ?_)
  rw [HasVisit, hid]
  exact hv

/-- Rows, indexes and counter are as actions leave them. -/
structure Linked (s : Store) : Prop where
  sound : s.Sound
  rows : s.rows.Linked
  found : s.Found
  below : s.IdsBelow

variable {s : Store}

theorem linked_empty : empty.Linked where
  sound := sound_empty
  rows := Rows.linked_empty
  found := fun v hv => absurd hv (not_hasVisit_empty v)
  below := fun v hv => absurd hv (not_hasVisit_empty v)

theorem Sound.of_draft? (h : s.Sound) {reference : Reference} {v : Visit}
    (hv : s.draft? reference = some v) :
    s.rows.HasVisit v ∧ v.isDraft = true ∧ v.applicationReference = reference := by
  obtain ⟨hstored, hdraft⟩ := Option.filter_eq_some_iff.mp hv
  obtain ⟨hrow, happlication⟩ := h.visitForApplication hstored
  exact ⟨hrow, hdraft, happlication⟩

theorem Linked.draft?_eq (h : s.Linked) {v : Visit} (hv : s.rows.HasVisit v)
    (hdraft : v.isDraft = true) : s.draft? v.applicationReference = some v := by
  unfold draft? visitForApplication?
  rw [h.found v hv hdraft]
  exact Option.filter_eq_some_iff.mpr ⟨hv, hdraft⟩

theorem Linked.undrafted_of_draft? (h : s.Linked) {reference : Reference}
    (hnone : s.draft? reference = none) : s.rows.Undrafted reference := by
  rintro v hv hdraft rfl
  rw [h.draft?_eq hv hdraft] at hnone
  cases hnone

/-- The draft of a stored application says what the application says. -/
theorem Linked.drafts (h : s.Linked) {reference : Reference} {a : Application} {v : Visit}
    (ha : s.application? reference = some a) (hv : s.draft? reference = some v) : a.Drafts v := by
  obtain ⟨hrow, hdraft, rfl⟩ := h.sound.of_draft? hv
  obtain ⟨b, hb, -, hdrafts⟩ := h.rows.application v hrow hdraft
  cases ha.symm.trans hb
  exact hdrafts

end Store

end PrisonVisits
