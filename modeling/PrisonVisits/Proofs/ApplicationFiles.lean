import PrisonVisits.Proofs.Linkage

/-! # The file of an application

Of all that a store holds, three things concern an application: its row, its visit, and the audits
of its booking that name it. Most records leave them as they are, and what each of the others does
to them can be said without the rest of the store. -/

namespace PrisonVisits

open Table

/-- What there is about an application of a booking: its row, its visit, and what the audits that
name it say, in order. -/
structure Dossier where
  application : Option Application
  visit : Option Visit
  trail : List AuditKind

variable {booking application : Reference} {f : Dossier}

namespace Dossier

/-- There is nothing about the application. -/
def blank : Dossier := ⟨none, none, []⟩

/-- What a record makes of the dossier of an application. -/
def take (booking application : Reference) (f : Dossier) : Record → Dossier
  | .applicationSaved a =>
    if a.reference = application then { f with application := some a } else f
  | .applicationDeleted reference =>
    if reference = application then { f with application := none } else f
  | .visitSaved v => if v.applicationReference = application then { f with visit := some v } else f
  | .visitDeleted id =>
    if f.visit.map (·.id) = some id then { f with visit := none } else f
  | .audit a =>
    if a.bookingReference = booking ∧ a.applicationReference = some application then
      { f with trail := f.trail ++ [a.kind] }
    else f
  | _ => f

def takeAll (booking application : Reference) (f : Dossier) (c : Commit) : Dossier :=
  c.foldl (take booking application) f

theorem takeAll_cons (r : Record) (c : Commit) : f.takeAll booking application (r :: c) =
    (f.take booking application r).takeAll booking application c := rfl

theorem takeAll_append (earlier later : Commit) : f.takeAll booking application (earlier ++ later) =
    (f.takeAll booking application earlier).takeAll booking application later :=
  List.foldl_append

end Dossier

/-- The record leaves the application alone, whose visit has this id. -/
def Record.Spares (application : Reference) (id : Option UInt64) : Record → Prop
  | .applicationSaved a => a.reference ≠ application
  | .applicationDeleted reference => reference ≠ application
  | .visitSaved v => v.applicationReference ≠ application
  | .visitDeleted other => id ≠ some other
  | .audit a => a.applicationReference ≠ some application
  | _ => True

/-- The visit of the dossier, if there is one, has this id. -/
def Dossier.KeepsTo (f : Dossier) (id : Option UInt64) : Prop :=
  ∀ v, f.visit = some v → id = some v.id

namespace Dossier

variable {id : Option UInt64}

theorem keepsTo_own (f : Dossier) : f.KeepsTo (f.visit.map (·.id)) := by
  intro v hv
  rw [hv, Option.map_some]

theorem take_of_spares (hid : f.KeepsTo id) {r : Record} (h : r.Spares application id) :
    f.take booking application r = f := by
  cases r with
  | groupSaved | groupDeleted | templateSaved | templateDeleted => rfl
  | applicationSaved a => exact if_neg h
  | applicationDeleted reference => exact if_neg h
  | visitSaved v => exact if_neg h
  | visitDeleted other =>
    refine if_neg fun hown => h ?_
    obtain ⟨v, hv, hother⟩ := Option.map_eq_some_iff.mp hown
    rw [hid v hv, hother]
  | audit a => exact if_neg fun hnames => h hnames.2

theorem takeAll_of_spares (hid : f.KeepsTo id) {c : Commit}
    (h : ∀ r ∈ c, r.Spares application id) : f.takeAll booking application c = f := by
  induction c with
  | nil => rfl
  | cons r c ih =>
    obtain ⟨hr, hrest⟩ := List.forall_mem_cons.mp h
    rw [takeAll_cons, take_of_spares hid hr]
    exact ih hrest

/-- A record keeps the dossier to the id of its visit if what it saves there is of that id. -/
theorem KeepsTo.take (hid : f.KeepsTo id) {r : Record}
    (hr : ∀ v, r = .visitSaved v → v.applicationReference = application → id = some v.id) :
    (f.take booking application r).KeepsTo id := by
  cases r with
  | groupSaved | groupDeleted | templateSaved | templateDeleted => exact hid
  | applicationSaved a =>
    rw [Dossier.take]
    split <;> exact hid
  | applicationDeleted reference =>
    rw [Dossier.take]
    split <;> exact hid
  | visitSaved v =>
    rw [Dossier.take]
    split
    · next hown =>
      intro w hw
      cases hw
      exact hr v rfl hown
    · exact hid
  | visitDeleted other =>
    rw [Dossier.take]
    split
    · intro w hw
      cases hw
    · exact hid
  | audit a =>
    rw [Dossier.take]
    split <;> exact hid

theorem KeepsTo.takeAll (hid : f.KeepsTo id) {c : Commit} (hc : ∀ v, .visitSaved v ∈ c →
    v.applicationReference = application → id = some v.id) :
    (f.takeAll booking application c).KeepsTo id := by
  induction c generalizing f with
  | nil => exact hid
  | cons r c ih =>
    refine ih (hid.take fun v hr => ?_) fun v hv => hc v (List.mem_cons_of_mem _ hv)
    exact hc v (hr ▸ List.mem_cons_self)

end Dossier

namespace Rows

/-- What the audits of a booking that name an application say, in order. -/
def trail (t : Rows) (booking application : Reference) : List AuditKind :=
  ((t.audits[booking]?.getD []).filter fun a => a.applicationReference == some application).map
    (·.kind)

/-- The rows hold this about an application of a booking. -/
structure Files (t : Rows) (booking application : Reference) (f : Dossier) : Prop where
  row : t.applications[application]? = f.application
  visit : ∀ v, t.HasVisit v ∧ v.applicationReference = application ↔ f.visit = some v
  trail : t.trail booking application = f.trail

variable {t : Rows}

theorem trail_audit (a : EventAudit) : (t.apply (.audit a)).trail booking application =
    if a.bookingReference = booking ∧ a.applicationReference = some application then
      t.trail booking application ++ [a.kind]
    else t.trail booking application := by
  simp only [trail, apply, addAudit, getElem?_insert]
  by_cases hbooking : a.bookingReference = booking
  · rw [if_pos hbooking, hbooking, Option.getD_some, List.filter_append, List.map_append]
    by_cases hnames : a.applicationReference = some application
    · simp [hnames]
    · simp [hnames]
  · rw [if_neg hbooking, if_neg fun h => hbooking h.1]

/-- A visit that is saved takes the place of the application's visit, or it is of another
application and has another id. -/
theorem Files.visitSaved (h : t.Files booking application f) {v : Visit}
    (hid : ∀ w, f.visit = some w → (v.applicationReference = application ↔ w.id = v.id)) :
    (t.apply (.visitSaved v)).Files booking application
      (f.take booking application (.visitSaved v)) := by
  by_cases hown : v.applicationReference = application
  · rw [Dossier.take, if_pos hown]
    refine ⟨h.row, fun w => ?_, h.trail⟩
    rw [hasVisit_visitSaved, Option.some.injEq]
    constructor
    · intro hw
      obtain ⟨hw | ⟨hne, hw⟩, happlication⟩ := hw
      · exact hw.symm
      · have hfound := (h.visit w).mp ⟨hw, happlication⟩
        exact absurd ((hid w hfound).mp hown) hne
    · intro hw
      rw [← hw]
      exact ⟨.inl rfl, hown⟩
  · rw [Dossier.take, if_neg hown]
    refine ⟨h.row, fun w => ?_, h.trail⟩
    rw [hasVisit_visitSaved, ← h.visit w]
    constructor
    · intro hw
      obtain ⟨hw | ⟨-, hw⟩, happlication⟩ := hw
      · exact absurd (hw ▸ happlication) hown
      · exact ⟨hw, happlication⟩
    · intro hw
      have hne : w.id ≠ v.id := fun hsame => hown ((hid w ((h.visit w).mp hw)).mpr hsame)
      exact ⟨.inr ⟨hne, hw.1⟩, hw.2⟩

theorem Files.visitDeleted (h : t.Files booking application f) (id : UInt64) :
    (t.apply (.visitDeleted id)).Files booking application
      (f.take booking application (.visitDeleted id)) := by
  by_cases hown : f.visit.map (·.id) = some id
  · rw [Dossier.take, if_pos hown]
    obtain ⟨v, hv, hid⟩ := Option.map_eq_some_iff.mp hown
    refine ⟨h.row, fun w => ?_, h.trail⟩
    rw [hasVisit_visitDeleted]
    refine ⟨fun hw => ?_, nofun⟩
    have hfound := (h.visit w).mp ⟨hw.1.2, hw.2⟩
    rw [hv] at hfound
    exact absurd (Option.some.inj hfound ▸ hid) hw.1.1
  · rw [Dossier.take, if_neg hown]
    refine ⟨h.row, fun w => ?_, h.trail⟩
    rw [hasVisit_visitDeleted, ← h.visit w]
    refine ⟨fun hw => ⟨hw.1.2, hw.2⟩, fun hw => ⟨⟨fun hid => hown ?_, hw.1⟩, hw.2⟩⟩
    rw [(h.visit w).mp hw, Option.map_some, hid]

/-- The rows' dossier takes a record as the rows do. -/
theorem Files.apply (h : t.Files booking application f) {r : Record}
    (hid : ∀ v, r = .visitSaved v → ∀ w, f.visit = some w →
      (v.applicationReference = application ↔ w.id = v.id)) :
    (t.apply r).Files booking application (f.take booking application r) := by
  cases r with
  | groupSaved | groupDeleted | templateSaved | templateDeleted =>
    exact ⟨h.row, h.visit, h.trail⟩
  | applicationSaved a =>
    by_cases hown : a.reference = application
    · rw [Dossier.take, if_pos hown]
      refine ⟨?_, h.visit, h.trail⟩
      simp only [Rows.apply, getElem?_insert]
      exact if_pos hown
    · rw [Dossier.take, if_neg hown]
      refine ⟨?_, h.visit, h.trail⟩
      simp only [Rows.apply, getElem?_insert]
      rw [if_neg hown, h.row]
  | applicationDeleted reference =>
    by_cases hown : reference = application
    · rw [Dossier.take, if_pos hown]
      refine ⟨?_, h.visit, h.trail⟩
      simp only [Rows.apply, getElem?_erase]
      exact if_pos hown
    · rw [Dossier.take, if_neg hown]
      refine ⟨?_, h.visit, h.trail⟩
      simp only [Rows.apply, getElem?_erase]
      rw [if_neg hown, h.row]
  | visitSaved v => exact h.visitSaved (hid v rfl)
  | visitDeleted id => exact h.visitDeleted id
  | audit a =>
    have htrail : (t.apply (.audit a)).trail booking application = _ := trail_audit a
    rw [h.trail] at htrail
    rw [Dossier.take]
    split
    · next hnames =>
      rw [if_pos hnames] at htrail
      exact ⟨h.row, h.visit, htrail⟩
    · next hnames =>
      rw [if_neg hnames] at htrail
      exact ⟨h.row, h.visit, htrail⟩

/-- A commit keeps to the id of the application's visit: what it saves under that id is of the
application, and nothing else is. -/
theorem Files.applyCommit (h : t.Files booking application f) {c : Commit} {id : Option UInt64}
    (hid : f.KeepsTo id)
    (hsaved : ∀ v, .visitSaved v ∈ c → (v.applicationReference = application ↔ id = some v.id)) :
    (t.applyCommit c).Files booking application (f.takeAll booking application c) := by
  induction c generalizing t f with
  | nil => exact h
  | cons r c ih =>
    have hfirst := h.apply (r := r) fun v hr w hw => by
      rw [hsaved v (hr ▸ List.mem_cons_self), hid w hw, Option.some.injEq]
    refine ih hfirst (hid.take fun v hr => ?_) fun v hv => hsaved v (List.mem_cons_of_mem _ hv)
    exact (hsaved v (hr ▸ List.mem_cons_self)).mp

end Rows

end PrisonVisits
