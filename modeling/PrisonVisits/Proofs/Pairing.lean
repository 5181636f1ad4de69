import PrisonVisits.Proofs.Prisons

/-! # Applications and drafts in pairs

An application that is not completed has a draft, which says the same and is found from the
application; a draft has such an application. Actions keep this, and so do restarts and compactions
as long as journals are read to their ends: a snapshot that breaks off in front of the visits would
bring back applications without drafts. -/

namespace PrisonVisits

open Rows

/-- Incomplete applications and drafts belong together, one of each, and the index leads from the
application to the draft. -/
structure Store.Paired (s : Store) : Prop where
  draft : ∀ (reference : Reference) (a : Application), s.application? reference = some a →
    a.completed = false → a.reference = reference ∧
      ∃ v, s.visitForApplication? reference = some v ∧ v.isDraft = true ∧
        (v.status = .reserved ↔ a.kind = .reserve) ∧ (v.status = .changing ↔ a.kind = .change) ∧
        a.Drafts v
  application : ∀ (id : UInt64) (v : Visit), s.visit? id = some v → v.isDraft = true →
    s.visitForApplication? v.applicationReference = some v ∧
      ∃ a, s.application? v.applicationReference = some a ∧ a.completed = false ∧ a.Drafts v

theorem ApplicationKind.draftStatus_iff (kind : ApplicationKind) :
    (kind.draftStatus = .reserved ↔ kind = .reserve) ∧
      (kind.draftStatus = .changing ↔ kind = .change) := by
  cases kind <;> simp [draftStatus]

namespace Store

variable {s : Store}

theorem Linked.visitForApplication?_eq (h : s.Linked) {v : Visit} (hv : s.rows.HasVisit v)
    (hdraft : v.isDraft = true) : s.visitForApplication? v.applicationReference = some v :=
  (Option.filter_eq_some_iff.mp (h.draft?_eq hv hdraft)).1

/-- The visit that backs an incomplete application is its draft. -/
theorem Linked.paired (h : s.Linked) (hbacked : s.rows.Backed) : s.Paired where
  draft := by
    intro reference a ha hopen
    have hkey : a.reference = reference := h.sound.keyed.applications reference a ha
    obtain ⟨v, hv, hbacks⟩ := hbacked reference a ha
    have hdraft : v.isDraft = true := by rw [hbacks.draft, hopen]; rfl
    obtain ⟨b, hb, -, hdrafts⟩ := h.rows.application v hv hdraft
    have hown : v.applicationReference = reference := (hbacks.own hopen).trans hkey
    rw [hown] at hb
    cases hb.symm.trans ha
    refine ⟨hkey, v, ?_, hdraft, ?_, ?_, hdrafts⟩
    · rw [← hown]
      exact h.visitForApplication?_eq hv hdraft
    · rw [hdrafts.status]
      exact a.kind.draftStatus_iff.1
    · rw [hdrafts.status]
      exact a.kind.draftStatus_iff.2
  application := by
    intro id v hv hdraft
    have hrow : s.rows.HasVisit v := by
      rw [HasVisit, h.sound.keyed.visits id v hv]
      exact hv
    obtain ⟨a, ha, hopen, hdrafts⟩ := h.rows.application v hrow hdraft
    exact ⟨h.visitForApplication?_eq hrow hdraft, a, ha, hopen, hdrafts⟩

/-- An incomplete application is discarded together with its draft. -/
theorem Paired.discardRecords_eq (h : s.Paired) {reference : Reference} {a : Application}
    (ha : s.application? reference = some a) (hopen : a.completed = false) (actionedBy : String)
    (now : Moment) : ∃ draft, s.draft? reference = some draft ∧
      a.discardRecords (s.visitForApplication? reference) actionedBy now =
        [.applicationDeleted reference, .visitDeleted draft.id,
          a.audit .discardedApplication actionedBy now] := by
  obtain ⟨hkey, draft, hfound, hdraft, -⟩ := h.draft reference a ha hopen
  refine ⟨draft, Option.filter_eq_some_iff.mpr ⟨hfound, hdraft⟩, ?_⟩
  rw [hfound, Application.discardRecords_of_isDraft hdraft, hkey]

end Store

namespace Desk

/-- Where journals are read to their ends, every run keeps applications backed. -/
theorem preserved_backed : Preserved True (fun _ _ => True) (fun _ t => t.Backed)
    (fun _ commits => (Store.ofCommits commits).rows.Backed) := by
  refine preserved_of_rows (fun _ => trivial) (fun _ => anchored_empty.backed) ?_ ?_
    (fun _ _ h => h)
  · exact fun h hbacked _ hw => backed_of_writes h hbacked hw
  · intro t around n _ hbacked hn
    rw [first_all (hn trivial)]
    exact hbacked

/-- All along every run from an empty journal, incomplete applications and drafts are in pairs. -/
theorem paired_throughout (policy : BookingPolicy) (now : Moment)
    (prisoners : Std.ExtTreeMap String PrisonerContext) (references : ReferenceSource)
    (actions : List Action)
    (hrange : (openOn #[] policy now prisoners references).Throughout InRange actions)
    (hread : (openOn #[] policy now prisoners references).Throughout ReadToEnd actions) :
    (openOn #[] policy now prisoners references).Throughout (fun d => d.store.Paired) actions := by
  have hkept := kept_throughout preserved_backed hrange fun _ => hread
  exact hkept.imp fun d h => h.linked.paired h.live

/-- Application c of the small run is found with its draft, visit 1. -/
theorem paired_throughout_sample :
    Sample.desk.Throughout InRange Sample.actions ∧
      Sample.desk.Throughout ReadToEnd Sample.actions ∧
      ∃ a v, (Sample.desk.run Sample.actions).store.application? "c" = some a ∧
        (Sample.desk.run Sample.actions).store.visitForApplication? "c" = some v ∧ a.Drafts v := by
  have hread := throughout_readToEnd [] rfl (by simp) Sample.along_actions (by decide)
  refine ⟨Sample.inRange_actions, hread, ?_⟩
  have hpaired := (paired_throughout Sample.policy _ _ Sample.letters Sample.actions
    Sample.inRange_actions hread).last
  have hstored : ((Sample.desk.run Sample.actions).store.application? "c").map (·.completed) =
      some false := by decide +kernel
  obtain ⟨a, ha, hopen⟩ := Option.map_eq_some_iff.mp hstored
  obtain ⟨-, v, hv, -, -, -, hdrafts⟩ := hpaired.draft "c" a ha hopen
  exact ⟨a, v, ha, hv, hdrafts⟩

end Desk

end PrisonVisits
