import PrisonVisits.Proofs.ApplicationTurns

/-! # The life of an application

The audits that name an application tell its life: it is made as a draft, may be amended any number
of times, and then is discarded, withdrawn or booked, and one that is booked may be cancelled. The
last audit says what is stored of it. Every turn of the application keeps this, and so does whatever
else is committed. -/

namespace PrisonVisits

open Rows

/-- What an application has come to. -/
inductive Ending where
  | pending | discarded
  /-- The draft was cancelled. -/
  | withdrawn
  | booked
  /-- The booked visit was cancelled. -/
  | cancelled

namespace Ending

/-- The audits behind those of the draft. -/
def audits : Ending → List AuditKind
  | pending => []
  | discarded => [.discardedApplication]
  | withdrawn => [.cancelledVisit]
  | booked => [.bookedVisit]
  | cancelled => [.bookedVisit, .cancelledVisit]

/-- Whether the application is completed, where it is stored. -/
def completed : Ending → Option Bool
  | pending => some false
  | discarded | withdrawn => none
  | booked | cancelled => some true

/-- The status of the application's visit, where it is stored. -/
def status (kind : ApplicationKind) : Ending → Option VisitStatus
  | pending => some kind.draftStatus
  | discarded => none
  | withdrawn | cancelled => some .cancelled
  | booked => some .booked

end Ending

namespace ApplicationKind

/-- The audits of an application that was amended so many times. -/
def word (kind : ApplicationKind) (amendments : Nat) (e : Ending) : List AuditKind :=
  kind.startAudit :: (List.replicate amendments .amendedApplication ++ e.audits)

variable {kind : ApplicationKind} {n m : Nat} {e e' : Ending}

theorem word_append (kind : ApplicationKind) (n : Nat) (e : Ending) :
    kind.word n .pending ++ e.audits = kind.word n e := by
  simp [word, Ending.audits]

theorem word_succ : kind.word n .pending ++ [.amendedApplication] = kind.word (n + 1) .pending := by
  simp [word, Ending.audits, List.replicate_succ']

/-- The audits tell what the application has come to. -/
theorem ending_of_word (h : kind.word n e = kind.word m e') : e = e' := by
  have hrest : ∀ n e, (kind.word n e).filter (· ≠ .amendedApplication) =
      kind.startAudit :: e.audits := by
    intro n e
    cases kind <;> cases e <;> simp [word, startAudit, Ending.audits]
  have hsame := congrArg (List.filter (· ≠ AuditKind.amendedApplication)) h
  rw [hrest, hrest] at hsame
  have haudits := (List.cons.inj hsame).2
  cases e <;> cases e' <;> first | rfl | cases haudits

end ApplicationKind

/-- The dossier tells how an application was amended so many times and what it has come to. -/
structure Dossier.At (f : Dossier) (x : Application) (n : Nat) (e : Ending) : Prop where
  trail : f.trail = x.kind.word n e
  completed : f.application.map (·.completed) = e.completed
  status : f.visit.map (·.status) = e.status x.kind
  own : ∀ a, f.application = some a → a.kind = x.kind ∧ a.bookingReference = x.bookingReference
  booking : ∀ v, f.visit = some v → v.reference = x.bookingReference

namespace Dossier

variable {f : Dossier} {x : Application} {n : Nat} {e : Ending}

/-- An incomplete application is pending. -/
theorem At.pending (h : f.At x n e) {a : Application} (ha : f.application = some a)
    (hopen : a.completed = false) : e = .pending := by
  have hcompleted := h.completed
  rw [ha, Option.map_some, hopen] at hcompleted
  cases e <;> first | rfl | cases hcompleted

theorem At.pending_of_isDraft (h : f.At x n e) {v : Visit} (hv : f.visit = some v)
    (hdraft : v.isDraft = true) : e = .pending := by
  have hstatus := h.status
  rw [hv, Option.map_some] at hstatus
  unfold Visit.isDraft at hdraft
  cases e with
  | pending => rfl
  | discarded => cases hstatus
  | withdrawn | booked | cancelled =>
    rw [Option.some.inj hstatus] at hdraft
    cases hdraft

/-- A pending application has its draft. -/
theorem At.exists_draft (h : f.At x n .pending) : ∃ v, f.visit = some v ∧ v.isDraft = true := by
  obtain ⟨v, hv, hstatus⟩ := Option.map_eq_some_iff.mp h.status
  refine ⟨v, hv, ?_⟩
  unfold Visit.isDraft
  rw [hstatus]
  cases x.kind <;> rfl

theorem At.booked_of_isBooked (h : f.At x n e) {v : Visit} (hv : f.visit = some v)
    (hbooked : v.isBooked = true) : e = .booked := by
  have hstatus := h.status
  rw [hv, Option.map_some] at hstatus
  unfold Visit.isBooked at hbooked
  cases e with
  | booked => rfl
  | discarded => cases hstatus
  | pending =>
    rw [Option.some.inj hstatus] at hbooked
    cases hkind : x.kind <;> rw [hkind] at hbooked <;> cases hbooked
  | withdrawn | cancelled =>
    rw [Option.some.inj hstatus] at hbooked
    cases hbooked

/-! ## Turns of the dossier -/

variable {a : Application} {v draft old : Visit} {actionedBy : String} {now : Moment}

theorem at_started (hopen : a.completed = false) (id : UInt64) (o : SessionOccurrence) :
    (blank.takeAll a.bookingReference a.reference [.applicationSaved a,
      .visitSaved (a.draftVisit id o now),
      a.audit a.kind.startAudit actionedBy now]).At a 0 .pending := by
  have htaken : blank.takeAll a.bookingReference a.reference [.applicationSaved a,
      .visitSaved (a.draftVisit id o now), a.audit a.kind.startAudit actionedBy now] =
      ⟨some a, some (a.draftVisit id o now), [a.kind.startAudit]⟩ := by
    simp [takeAll, take, blank, Application.audit, Application.draftVisit]
  rw [htaken]
  refine ⟨rfl, congrArg some hopen, rfl, ?_, ?_⟩
  · intro _ hsaved
    cases hsaved
    exact ⟨rfl, rfl⟩
  · intro _ hsaved
    cases hsaved
    rfl

theorem At.amended (h : f.At x n .pending) (hreference : a.reference = x.reference)
    (hkind : a.kind = x.kind) (hbooking : a.bookingReference = x.bookingReference)
    (hopen : a.completed = false) (hdrafts : a.Drafts v) :
    (f.takeAll x.bookingReference x.reference [.applicationSaved a, .visitSaved v,
      a.audit .amendedApplication actionedBy now]).At x (n + 1) .pending := by
  have htaken : f.takeAll x.bookingReference x.reference [.applicationSaved a, .visitSaved v,
      a.audit .amendedApplication actionedBy now] =
      ⟨some a, some v, f.trail ++ [.amendedApplication]⟩ := by
    simp [takeAll, take, Application.audit, hdrafts.application, hreference, hbooking]
  rw [htaken]
  refine ⟨?_, congrArg some hopen, ?_, ?_, ?_⟩
  · rw [h.trail, ApplicationKind.word_succ]
  · rw [Option.map_some, hdrafts.status, hkind]
    rfl
  · intro _ hsaved
    cases hsaved
    exact ⟨hkind, hbooking⟩
  · intro _ hsaved
    cases hsaved
    exact hdrafts.booking.trans hbooking

theorem At.booked (h : f.At x n .pending) (ha : f.application = some a)
    (hreference : a.reference = x.reference) (hv : f.visit = some draft)
    (hdraft : draft.applicationReference = x.reference) :
    (f.takeAll x.bookingReference x.reference [.visitSaved (a.booked draft now),
      .applicationSaved (a.complete now),
      a.bookedAudit (a.booked draft now) actionedBy now]).At x n .booked := by
  obtain ⟨hkind, hbooking⟩ := h.own a ha
  have htaken : f.takeAll x.bookingReference x.reference [.visitSaved (a.booked draft now),
      .applicationSaved (a.complete now), a.bookedAudit (a.booked draft now) actionedBy now] =
      ⟨some (a.complete now), some (a.booked draft now), f.trail ++ [.bookedVisit]⟩ := by
    simp [takeAll, take, Application.bookedAudit, Application.booked, Application.bring,
      Application.complete, hdraft, hreference, hbooking]
  rw [htaken]
  refine ⟨?_, rfl, rfl, ?_, ?_⟩
  · rw [h.trail]
    exact x.kind.word_append n .booked
  · intro _ hsaved
    cases hsaved
    exact ⟨hkind, hbooking⟩
  · intro _ hsaved
    cases hsaved
    exact h.booking draft hv

theorem At.cancelled (h : f.At x n .booked) (hold : f.visit = some old)
    (hown : old.applicationReference = x.reference) (hcancels : v.Cancels old) :
    (f.takeAll x.bookingReference x.reference
      [.visitSaved v, v.cancelledAudit actionedBy now]).At x n .cancelled := by
  have hbooking := hcancels.booking.trans (h.booking old hold)
  have htaken : f.takeAll x.bookingReference x.reference
      [.visitSaved v, v.cancelledAudit actionedBy now] =
      ⟨f.application, some v, f.trail ++ [.cancelledVisit]⟩ := by
    simp [takeAll, take, Visit.cancelledAudit, hcancels.application, hown, hbooking]
  rw [htaken]
  refine ⟨?_, h.completed, congrArg some hcancels.status, h.own, ?_⟩
  · rw [h.trail]
    simp [ApplicationKind.word, Ending.audits]
  · intro _ hsaved
    cases hsaved
    exact hbooking

theorem At.withdrawn (h : f.At x n .pending) (hold : f.visit = some old)
    (hown : old.applicationReference = x.reference) (hcancels : v.Cancels old) :
    (f.takeAll x.bookingReference x.reference [.visitSaved v, .applicationDeleted x.reference,
      v.cancelledAudit actionedBy now]).At x n .withdrawn := by
  have hbooking := hcancels.booking.trans (h.booking old hold)
  have htaken : f.takeAll x.bookingReference x.reference [.visitSaved v,
      .applicationDeleted x.reference, v.cancelledAudit actionedBy now] =
      ⟨none, some v, f.trail ++ [.cancelledVisit]⟩ := by
    simp [takeAll, take, Visit.cancelledAudit, hcancels.application, hown, hbooking]
  rw [htaken]
  refine ⟨?_, rfl, congrArg some hcancels.status, fun b hb => (by cases hb), ?_⟩
  · rw [h.trail]
    exact x.kind.word_append n .withdrawn
  · intro _ hsaved
    cases hsaved
    exact hbooking

theorem At.discarded (h : f.At x n .pending) (ha : f.application = some a)
    (hreference : a.reference = x.reference) (hv : f.visit = some draft)
    (hdraft : draft.isDraft = true) :
    (f.takeAll x.bookingReference x.reference
      (a.discardRecords (some draft) actionedBy now)).At x n .discarded := by
  obtain ⟨hkind, hbooking⟩ := h.own a ha
  have htaken : f.takeAll x.bookingReference x.reference
      (a.discardRecords (some draft) actionedBy now) =
      ⟨none, none, f.trail ++ [.discardedApplication]⟩ := by
    rw [Application.discardRecords_of_isDraft hdraft]
    simp [takeAll, take, Application.audit, hreference, hv, hbooking]
  rw [htaken]
  refine ⟨?_, rfl, rfl, fun b hb => (by cases hb), fun w hw => (by cases hw)⟩
  rw [h.trail]
  exact x.kind.word_append n .discarded

end Dossier

namespace Desk

variable {d : Desk} {f : Dossier} {x : Application} {n : Nat} {e : Ending} {booking : Reference}

/-- The dossier goes from one form to another with every turn of its application. -/
theorem at_of_turns (h : d.store.Linked)
    (hf : d.store.rows.Files x.bookingReference x.reference f) (hat : f.At x n e) {c : Commit}
    (hturns : d.Turns x.reference c) :
    ∃ m e', (f.takeAll x.bookingReference x.reference c).At x m e' := by
  cases hturns with
  | amend stored incomplete drafted placing actionedBy =>
    have hsame := sameRows_of_placeAmended placing
    have hrow := hf.row.symm.trans stored
    obtain ⟨hownkind, hownbooking⟩ := hat.own _ hrow
    have hkey := h.sound.keyed.applications x.reference _ stored
    rw [hat.pending hrow incomplete] at hat
    exact ⟨n + 1, .pending, hat.amended (hsame.reference.trans hkey)
      (hsame.kind.trans hownkind) (hsame.booking.trans hownbooking)
      (hsame.completed.trans incomplete) (drafts_of_placeAmended (h.drafts stored drafted) placing)⟩
  | book stored incomplete drafted actionedBy =>
    obtain ⟨hvisit, -, hdraft⟩ := h.sound.of_draft? drafted
    have hrow := hf.row.symm.trans stored
    rw [hat.pending hrow incomplete] at hat
    exact ⟨n, .booked, hat.booked hrow (h.sound.keyed.applications x.reference _ stored)
      ((hf.visit _).mp ⟨hvisit, hdraft⟩) hdraft⟩
  | @cancelBooked old v stored own booked cancels actionedBy =>
    have hold := (hf.visit old).mp ⟨stored, own⟩
    rw [hat.booked_of_isBooked hold booked] at hat
    exact ⟨n, .cancelled, hat.cancelled hold own cancels⟩
  | @cancelDraft old v stored own draft cancels actionedBy =>
    have hold := (hf.visit old).mp ⟨stored, own⟩
    rw [hat.pending_of_isDraft hold draft] at hat
    exact ⟨n, .withdrawn, hat.withdrawn hold own cancels⟩
  | @discard existing stored incomplete actionedBy =>
    have hrow := hf.row.symm.trans stored
    rw [hat.pending hrow incomplete] at hat
    obtain ⟨v, hv, hdraft⟩ := hat.exists_draft
    obtain ⟨hvisit, hown⟩ := (hf.visit v).mpr hv
    rw [← hown, h.draft?_eq hvisit hdraft, hown]
    exact ⟨n, .discarded, hat.discarded hrow (h.sound.keyed.applications x.reference _ stored) hv
      hdraft⟩

/-- There is nothing for a commit to turn to where nothing is of the application. -/
theorem not_turns_of_blank {reference : Reference}
    (hf : d.store.rows.Files booking reference .blank) {c : Commit} : ¬d.Turns reference c := by
  intro hturns
  have hnone : ∀ existing, d.store.application? reference ≠ some existing := by
    intro existing hstored
    cases hf.row.symm.trans hstored
  cases hturns with
  | amend stored | book stored | discard stored => exact hnone _ stored
  | cancelBooked stored own | cancelDraft stored own => cases (hf.visit _).mp ⟨stored, own⟩

end Desk

/-! ## Lives -/

/-- The rows tell a life of the application. -/
def Rows.Life (t : Rows) (x : Application) : Prop :=
  ∃ f n e, t.Files x.bookingReference x.reference f ∧ f.At x n e

namespace Desk

variable {d : Desk} {x : Application}

/-- An action tells on a life, unless it makes the application anew. -/
theorem life_of_writes (h : d.store.Linked) (hlife : d.store.rows.Life x) {a : Action} {c : Commit}
    (hw : d.Writes a c) (hnew : a.starts = true →
      ∃ y o, c = (d.start y o).records ∧ y.reference ≠ x.reference) :
    (d.store.rows.applyCommit c).Life x := by
  obtain ⟨f, n, e, hf, hat⟩ := hlife
  have hfiles := files_of_writes h hf hw hnew
  cases regards_of_writes h hf hw hnew with
  | spares hspares =>
    rw [Dossier.takeAll_of_spares f.keepsTo_own hspares] at hfiles
    exact ⟨f, n, e, hfiles, hat⟩
  | @turns before turn behind hturn hspares =>
    obtain ⟨hbefore, hbehind⟩ := List.forall_mem_append.mp hspares
    have hkeeps : (f.takeAll x.bookingReference x.reference turn).KeepsTo
        (f.visit.map (·.id)) :=
      f.keepsTo_own.takeAll fun v hv => (saved_iff_of_writes h hf hw hnew
        (List.mem_append_left behind (List.mem_append_right before hv))).mp
    rw [Dossier.takeAll_append, Dossier.takeAll_append,
      Dossier.takeAll_of_spares f.keepsTo_own hbefore,
      Dossier.takeAll_of_spares hkeeps hbehind] at hfiles
    obtain ⟨m, e', hturned⟩ := at_of_turns h hf hat hturn
    exact ⟨_, m, e', hfiles, hturned⟩

/-- Nothing is of an application, unless an action makes it. -/
theorem blank_of_writes (h : d.store.Linked) {booking reference : Reference}
    (hf : d.store.rows.Files booking reference .blank) {a : Action} {c : Commit}
    (hw : d.Writes a c) (hnew : a.starts = true →
      ∃ y o, c = (d.start y o).records ∧ y.reference ≠ reference) :
    (d.store.rows.applyCommit c).Files booking reference .blank := by
  have hfiles := files_of_writes h hf hw hnew
  cases regards_of_writes h hf hw hnew with
  | spares hspares =>
    rwa [Dossier.takeAll_of_spares Dossier.blank.keepsTo_own hspares] at hfiles
  | turns hturn => exact absurd hturn (not_turns_of_blank hf)

/-- A new application begins its life. -/
theorem life_of_start (hf : d.store.rows.Files x.bookingReference x.reference .blank)
    (hopen : x.completed = false) (o : SessionOccurrence) :
    (d.store.rows.applyCommit (d.start x o).records).Life x := by
  have hnothing : Dossier.blank.KeepsTo (some d.store.nextVisitId) := by
    intro v hv
    cases hv
  refine ⟨_, 0, .pending, hf.applyCommit hnothing fun v hv => ?_, Dossier.at_started hopen _ o⟩
  rw [saved_of_start hv]
  exact iff_of_true rfl rfl

end Desk

end PrisonVisits
