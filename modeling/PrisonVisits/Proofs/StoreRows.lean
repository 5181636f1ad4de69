import PrisonVisits.Proofs.Tables
import PrisonVisits.Store.Queries

/-! # The rows of a store

What a store says is said by its rows; the indexes and the counter only help to find them. A record
changes the rows in the same way whatever the indexes are. Every row stands under its own key, and a
booking without audits has no list of them. -/

namespace PrisonVisits

open Table

structure Rows where
  groups : Std.ExtTreeMap Reference HierarchyGroup
  templates : Std.ExtTreeMap Reference SessionTemplate
  applications : Std.ExtTreeMap Reference Application
  visits : Std.ExtTreeMap UInt64 Visit
  audits : Std.ExtTreeMap Reference (List EventAudit)

namespace Rows

def addAudit (audits : Std.ExtTreeMap Reference (List EventAudit)) (a : EventAudit) :
    Std.ExtTreeMap Reference (List EventAudit) :=
  audits.insert a.bookingReference (audits[a.bookingReference]?.getD [] ++ [a])

def apply (t : Rows) : Record → Rows
  | .groupSaved group => { t with groups := t.groups.insert group.reference group }
  | .groupDeleted reference => { t with groups := t.groups.erase reference }
  | .templateSaved template =>
    { t with templates := t.templates.insert template.reference template }
  | .templateDeleted reference => { t with templates := t.templates.erase reference }
  | .applicationSaved application =>
    { t with applications := t.applications.insert application.reference application }
  | .applicationDeleted reference => { t with applications := t.applications.erase reference }
  | .visitSaved visit => { t with visits := t.visits.insert visit.id visit }
  | .visitDeleted id => { t with visits := t.visits.erase id }
  | .audit audit => { t with audits := addAudit t.audits audit }

def applyCommit (t : Rows) (commit : Commit) : Rows := commit.foldl apply t

theorem applyCommit_nil (t : Rows) : t.applyCommit [] = t := rfl

theorem applyCommit_cons (t : Rows) (r : Record) (commit : Commit) :
    t.applyCommit (r :: commit) = (t.apply r).applyCommit commit := rfl

theorem applyCommit_append (t : Rows) (earlier later : Commit) :
    t.applyCommit (earlier ++ later) = (t.applyCommit earlier).applyCommit later :=
  List.foldl_append

end Rows

namespace Store

def rows (s : Store) : Rows where
  groups := s.groups
  templates := s.templates
  applications := s.applications
  visits := s.visits
  audits := s.audits

theorem rows_apply (s : Store) (r : Record) : (s.apply r).rows = s.rows.apply r := by
  cases r with
  | groupSaved | groupDeleted | templateSaved | applicationSaved | applicationDeleted => rfl
  | templateDeleted reference =>
    change (s.deleteTemplate reference).rows = _
    unfold deleteTemplate
    split
    · next h =>
      have hsame : s.rows.templates.erase reference = s.rows.templates := erase_of_absent h
      simp only [Rows.apply, hsame]
    · rfl
  | visitSaved v =>
    change (s.saveVisit v).rows = _
    unfold saveVisit
    cases s.visits[v.id]? <;> rfl
  | visitDeleted id =>
    change (s.deleteVisit id).rows = _
    unfold deleteVisit
    split
    · next h =>
      have hsame : s.rows.visits.erase id = s.rows.visits := erase_of_absent h
      simp only [Rows.apply, hsame]
    · rfl
  | audit a => rfl

theorem rows_applyCommit (s : Store) (commit : Commit) :
    (s.applyCommit commit).rows = s.rows.applyCommit commit := by
  induction commit generalizing s with
  | nil => rfl
  | cons r commit ih => exact (ih (s.apply r)).trans (by rw [rows_apply]; rfl)

theorem applyCommit_append (s : Store) (earlier later : Commit) :
    s.applyCommit (earlier ++ later) = (s.applyCommit earlier).applyCommit later :=
  List.foldl_append

theorem foldl_applyCommit (commits : List Commit) (s : Store) :
    commits.foldl applyCommit s = s.applyCommit commits.flatten := by
  induction commits generalizing s with
  | nil => rfl
  | cons commit commits ih => rw [List.foldl_cons, ih, List.flatten_cons, applyCommit_append]

theorem ofCommits_append (earlier later : List Commit) :
    ofCommits (earlier ++ later) = later.foldl applyCommit (ofCommits earlier) :=
  List.foldl_append

end Store

/-! ## Keys -/

/-- Every row stands under its own key, and every list of audits has some. -/
structure Rows.Keyed (t : Rows) : Prop where
  groups : Table.Keyed HierarchyGroup.reference t.groups
  templates : Table.Keyed SessionTemplate.reference t.templates
  applications : Table.Keyed Application.reference t.applications
  visits : Table.Keyed Visit.id t.visits
  audits : ∀ reference audits, t.audits[reference]? = some audits →
    audits ≠ [] ∧ ∀ a ∈ audits, EventAudit.bookingReference a = reference

theorem Rows.keyed_empty : Store.empty.rows.Keyed where
  groups := .empty
  templates := .empty
  applications := .empty
  visits := .empty
  audits := by
    intro reference audits h
    simp [Store.rows, Store.empty] at h

theorem Rows.Keyed.apply {t : Rows} (h : t.Keyed) (r : Record) : (t.apply r).Keyed := by
  cases r with
  | groupSaved group => exact { h with groups := h.groups.insert group }
  | groupDeleted reference => exact { h with groups := h.groups.erase reference }
  | templateSaved template => exact { h with templates := h.templates.insert template }
  | templateDeleted reference => exact { h with templates := h.templates.erase reference }
  | applicationSaved application =>
    exact { h with applications := h.applications.insert application }
  | applicationDeleted reference => exact { h with applications := h.applications.erase reference }
  | visitSaved visit => exact { h with visits := h.visits.insert visit }
  | visitDeleted id => exact { h with visits := h.visits.erase id }
  | audit a =>
    refine { h with audits := ?_ }
    intro reference audits ha
    simp only [Rows.apply, addAudit, getElem?_insert] at ha
    split at ha
    · next hr =>
      cases ha
      refine ⟨by simp, fun b hb => ?_⟩
      rcases List.mem_append.mp hb with hb | hb
      · cases hold : t.audits[a.bookingReference]? with
        | none => simp [hold] at hb
        | some old => exact hr ▸ (h.audits _ old hold).2 b (by simpa [hold] using hb)
      · rw [List.mem_singleton.mp hb, hr]
    · exact h.audits reference audits ha

theorem Rows.Keyed.applyCommit {t : Rows} (h : t.Keyed) (commit : Commit) :
    (t.applyCommit commit).Keyed := by
  induction commit generalizing t with
  | nil => exact h
  | cons r commit ih => exact ih (h.apply r)

end PrisonVisits
