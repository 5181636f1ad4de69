import PrisonVisits.Proofs.StoreRows

/-! # Records by what they are about

A record is about one row of one table, or about the audits of one booking. It leaves everything
else as it was, and what it makes of its own row depends on no other. So commits that have nothing
in common can be applied in either order. -/

namespace PrisonVisits

open Table

/-- What a record can be about. -/
inductive RowKey where
  | group (reference : Reference)
  | template (reference : Reference)
  | application (reference : Reference)
  | visit (id : UInt64)
  /-- The audits of a booking. -/
  | trail (bookingReference : Reference)
deriving DecidableEq

/-- What the record is about. -/
def Record.key : Record → RowKey
  | .groupSaved group => .group group.reference
  | .groupDeleted reference => .group reference
  | .templateSaved template => .template template.reference
  | .templateDeleted reference => .template reference
  | .applicationSaved application => .application application.reference
  | .applicationDeleted reference => .application reference
  | .visitSaved visit => .visit visit.id
  | .visitDeleted id => .visit id
  | .audit a => .trail a.bookingReference

namespace Rows

/-- The tables say the same under a key. -/
def SameAt (t t' : Rows) : RowKey → Prop
  | .group reference => t.groups[reference]? = t'.groups[reference]?
  | .template reference => t.templates[reference]? = t'.templates[reference]?
  | .application reference => t.applications[reference]? = t'.applications[reference]?
  | .visit id => t.visits[id]? = t'.visits[id]?
  | .trail reference => t.audits[reference]? = t'.audits[reference]?

variable {t t' t'' : Rows} {k : RowKey} {r : Record} {c c' : Commit}

theorem SameAt.refl (t : Rows) (k : RowKey) : t.SameAt t k := by
  cases k <;> exact rfl

theorem SameAt.symm (h : t.SameAt t' k) : t'.SameAt t k := by
  cases k <;> exact Eq.symm h

theorem SameAt.trans (h : t.SameAt t' k) (h' : t'.SameAt t'' k) : t.SameAt t'' k := by
  cases k <;> exact Eq.trans h h'

/-- Tables that say the same under every key are the same. -/
theorem eq_of_sameAt (h : ∀ k, t.SameAt t' k) : t = t' := by
  obtain ⟨groups, templates, applications, visits, audits⟩ := t
  obtain ⟨groups', templates', applications', visits', audits'⟩ := t'
  have hgroups : groups = groups' := Std.ExtTreeMap.ext_getElem? fun k => h (.group k)
  have htemplates : templates = templates' := Std.ExtTreeMap.ext_getElem? fun k => h (.template k)
  have happlications : applications = applications' :=
    Std.ExtTreeMap.ext_getElem? fun k => h (.application k)
  have hvisits : visits = visits' := Std.ExtTreeMap.ext_getElem? fun k => h (.visit k)
  have haudits : audits = audits' := Std.ExtTreeMap.ext_getElem? fun k => h (.trail k)
  rw [hgroups, htemplates, happlications, hvisits, haudits]

/-! ## One record -/

/-- A record leaves alone what it is not about. -/
theorem sameAt_apply (t : Rows) (h : r.key ≠ k) : (t.apply r).SameAt t k := by
  cases k with
  | group reference =>
    cases r with
    | groupSaved => exact getElem?_insert_of_ne fun heq => h (congrArg RowKey.group heq)
    | groupDeleted => exact getElem?_erase_of_ne fun heq => h (congrArg RowKey.group heq)
    | _ => exact rfl
  | template reference =>
    cases r with
    | templateSaved => exact getElem?_insert_of_ne fun heq => h (congrArg RowKey.template heq)
    | templateDeleted => exact getElem?_erase_of_ne fun heq => h (congrArg RowKey.template heq)
    | _ => exact rfl
  | application reference =>
    cases r with
    | applicationSaved => exact getElem?_insert_of_ne fun heq => h (congrArg RowKey.application heq)
    | applicationDeleted =>
      exact getElem?_erase_of_ne fun heq => h (congrArg RowKey.application heq)
    | _ => exact rfl
  | visit id =>
    cases r with
    | visitSaved => exact getElem?_insert_of_ne fun heq => h (congrArg RowKey.visit heq)
    | visitDeleted => exact getElem?_erase_of_ne fun heq => h (congrArg RowKey.visit heq)
    | _ => exact rfl
  | trail reference =>
    cases r with
    | audit => exact getElem?_insert_of_ne fun heq => h (congrArg RowKey.trail heq)
    | _ => exact rfl

/-- What a record makes of its own row can be told from that row. -/
theorem SameAt.apply_key (h : t.SameAt t' r.key) : (t.apply r).SameAt (t'.apply r) r.key := by
  cases r with
  | groupSaved | groupDeleted | templateSaved | templateDeleted | applicationSaved
  | applicationDeleted | visitSaved | visitDeleted => simp [SameAt, Record.key, Rows.apply]
  | audit a =>
    have hsame : t.audits[a.bookingReference]? = t'.audits[a.bookingReference]? := h
    simp [SameAt, Record.key, Rows.apply, addAudit, hsame]

theorem SameAt.apply (h : t.SameAt t' k) (r : Record) : (t.apply r).SameAt (t'.apply r) k := by
  by_cases hk : r.key = k
  · subst hk
    exact h.apply_key
  · exact (sameAt_apply t hk).trans (h.trans (sameAt_apply t' hk).symm)

/-! ## Commits -/

theorem sameAt_applyCommit (t : Rows) (h : ∀ r ∈ c, r.key ≠ k) : (t.applyCommit c).SameAt t k := by
  induction c generalizing t with
  | nil => exact .refl t k
  | cons r c ih =>
    obtain ⟨hr, hrest⟩ := List.forall_mem_cons.mp h
    exact (ih (t.apply r) hrest).trans (sameAt_apply t hr)

theorem SameAt.applyCommit (h : t.SameAt t' k) (c : Commit) :
    (t.applyCommit c).SameAt (t'.applyCommit c) k := by
  induction c generalizing t t' with
  | nil => exact h
  | cons r c ih => exact ih (h.apply r)

/-- Commits that are about different things can change places. -/
theorem applyCommit_comm (t : Rows) (h : ∀ r ∈ c, ∀ r' ∈ c', r.key ≠ r'.key) :
    (t.applyCommit c).applyCommit c' = (t.applyCommit c').applyCommit c := by
  refine eq_of_sameAt fun k => ?_
  by_cases hk : ∃ r ∈ c, r.key = k
  · -- the other commit is not about this
    obtain ⟨r, hr, rfl⟩ := hk
    have hother : ∀ r' ∈ c', r'.key ≠ r.key := fun r' hr' => (h r hr r' hr').symm
    exact (sameAt_applyCommit _ hother).trans ((sameAt_applyCommit t hother).symm.applyCommit c)
  · have hnone : ∀ r ∈ c, r.key ≠ k := fun r hr heq => hk ⟨r, hr, heq⟩
    exact ((sameAt_applyCommit t hnone).applyCommit c').trans (sameAt_applyCommit _ hnone).symm

end Rows

end PrisonVisits
