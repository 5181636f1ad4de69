import PrisonVisits.Proofs.ApplicationIndex
import PrisonVisits.Proofs.Atomicity

/-! # Restarts and compactions show nothing

A desk that is opened on the journal of another one has the same rows and answers the same, whatever
actions, compactions and restarts the journal has been through, as long as references do not come
twice. Only the order of a prison's templates and the next visit id may differ, and those only
behind a compaction: without one the journal gives the very store back. The order in which a
compaction comes to the rows of a table does not matter. -/

namespace PrisonVisits

open Rows Table

/-! ## Stores that answer the same -/

/-- The stores have the same rows and answer the same questions alike, but for the order in which
the templates of a prison are listed. -/
structure Store.Agrees (s t : Store) : Prop where
  groups : s.groups = t.groups
  templates : s.templates = t.templates
  applications : s.applications = t.applications
  visits : s.visits = t.visits
  auditsFor : ∀ reference, s.auditsFor reference = t.auditsFor reference
  visitsForReference : ∀ reference, s.visitsForReference reference = t.visitsForReference reference
  bookedVisit? : ∀ reference, s.bookedVisit? reference = t.bookedVisit? reference
  visitForApplication? : ∀ application,
    s.visitForApplication? application = t.visitForApplication? application
  visitsInRoomDay : ∀ roomDay, s.visitsInRoomDay roomDay = t.visitsInRoomDay roomDay
  visitsForTemplate : ∀ template, s.visitsForTemplate template = t.visitsForTemplate template
  containsReference : ∀ reference, s.containsReference reference = t.containsReference reference
  templatesUsingGroup : ∀ group, s.templatesUsingGroup group = t.templatesUsingGroup group
  templatesForPrison : ∀ prison, (s.templatesForPrison prison).Perm (t.templatesForPrison prison)

namespace Store

variable {s t : Store}

theorem names_perm (hs : s.Sound) (ht : t.Sound) (htemplates : s.templates = t.templates)
    (prison : String) :
    (s.templatesByPrison.names prison).Perm (t.templatesByPrison.names prison) := by
  refine (List.perm_ext_iff_of_nodup (hs.indexed.byPrison.nodup prison)
    (ht.indexed.byPrison.nodup prison)).mpr fun reference => ?_
  rw [hs.indexed.byPrison.mem_iff, ht.indexed.byPrison.mem_iff, htemplates]

/-- Sound indexes that find every visit say no more than the rows. -/
theorem agrees_of_rows (hs : s.Sound) (ht : t.Sound) (hfs : s.FoundAll) (hft : t.FoundAll)
    (hrows : s.rows = t.rows) : s.Agrees t := by
  have hgroups : s.groups = t.groups := congrArg Rows.groups hrows
  have htemplates : s.templates = t.templates := congrArg Rows.templates hrows
  have happlications : s.applications = t.applications := congrArg Rows.applications hrows
  have hvisits : s.visits = t.visits := congrArg Rows.visits hrows
  have haudits : s.audits = t.audits := congrArg Rows.audits hrows
  have hbooking : ∀ reference, s.visitsForReference reference = t.visitsForReference reference := by
    intro reference
    rw [hs.visitsForReference_eq, ht.visitsForReference_eq, hvisits]
  refine ⟨hgroups, htemplates, happlications, hvisits, fun reference => ?_, hbooking,
    fun reference => ?_, fun application => ?_, fun roomDay => ?_, fun template => ?_,
    fun reference => ?_, fun group => ?_, fun prison => ?_⟩
  · rw [auditsFor, auditsFor, haudits]
  · rw [bookedVisit?, bookedVisit?, hbooking]
  · refine Option.ext fun v => ?_
    rw [hfs.visitForApplication?_iff hs, hft.visitForApplication?_iff ht, hrows]
  · rw [hs.visitsInRoomDay_eq, ht.visitsInRoomDay_eq, hvisits]
  · rw [hs.visitsForTemplate_eq, ht.visitsForTemplate_eq, hvisits]
  · refine Bool.eq_iff_iff.mpr ?_
    rw [hs.containsReference_iff, ht.containsReference_iff, hgroups, htemplates, happlications,
      hvisits]
  · rw [templatesUsingGroup, templatesUsingGroup, htemplates]
  · have hfind : s.template? = t.template? := by
      funext reference
      rw [template?, template?, htemplates]
    rw [templatesForPrison, templatesForPrison, hfind]
    exact (names_perm hs ht htemplates prison).filterMap _

/-- In whatever order a snapshot comes to the rows, the store that it builds agrees. -/
theorem FoundAll.agrees_rebuilt (h : s.FoundAll) (hs : s.Sound) {r : Reading}
    (hr : r.Of s.rows) : s.Agrees (ofCommits r.commits) :=
  agrees_of_rows hs (sound_ofCommits _) h (h.rebuilt hs hr)
    (rows_ofCommits_commits hr hs.keyed).symm

end Store

namespace Desk

variable {d : Desk}

/-! ## One action -/

/-- What an action commits is orderly where it is committed. -/
theorem orderly_recordsOf (h : d.store.Linked) (a : Action) :
    d.store.rows.OrderlyCommit (d.recordsOf a) := by
  rcases d.recordsOf_cases a with hnil | hw | rfl
  · rw [hnil]
    trivial
  · exact orderly_of_writes h hw
  · rw [recordsOf_expire]
    exact orderly_of_no_visit (no_visit_expiryCommits d _)

/-- A store with the rows of the desk finds every visit behind an action too, for a new application
has a reference that no visit has. -/
theorem foundAll_recordsOf {s : Store} (hs : s.Sound) (hfound : s.FoundAll)
    (hrows : s.rows = d.store.rows) (h : d.store.Linked) (hdrawn : d.AllDrawn)
    (hrepeats : Function.Injective d.references.reference) (a : Action) :
    (s.applyCommit (d.recordsOf a)).FoundAll := by
  have hunique : ∀ v w, d.store.rows.HasVisit v → d.store.rows.HasVisit w →
      v.applicationReference = w.applicationReference → v = w := by
    rw [← hrows]
    exact fun v w hv hw hsame => hfound.unique hv hw hsame
  have hnew : ∀ v, d.store.rows.HasVisit v →
      ¬d.references.Gave (d.perform a).references v.applicationReference := by
    rintro v hv ⟨i, hi, -, heq⟩
    obtain ⟨j, hj, heq'⟩ := hdrawn v hv
    have hsame : i = j := hrepeats (heq.symm.trans heq')
    omega
  refine hfound.applyCommit hs (by rw [hrows]; exact orderly_recordsOf h a)
    (fun application i =>
      (∃ v, d.store.rows.HasVisit v ∧ v.id = i ∧ v.applicationReference = application) ∨
      i = d.store.nextVisitId ∧ d.references.Gave (d.perform a).references application)
    ?_ (fun v hv => ?_) fun v hv => saved_of_recordsOf h hv
  · rintro application i j (⟨v, hv, rfl, rfl⟩ | ⟨rfl, hi⟩) (⟨w, hw, rfl, hsame⟩ | ⟨rfl, hj⟩)
    · rw [hunique v w hv hw hsame.symm]
    · exact absurd hj (hnew v hv)
    · rw [← hsame] at hi
      exact absurd hi (hnew w hw)
    · rfl
  · rw [hrows] at hv
    exact .inl ⟨v, hv, rfl, rfl⟩

/-- The journal gives the rows back, and live or rebuilt the index finds every visit. -/
structure Transparent (d : Desk) : Prop where
  faithful : d.Faithful
  drawn : d.AllDrawn
  found : d.store.FoundAll
  rebuilt : (Store.ofCommits d.journal.replay).FoundAll

theorem Transparent.agrees (h : d.Transparent) (hsound : d.store.Sound) :
    d.store.Agrees (Store.ofCommits d.journal.replay) :=
  Store.agrees_of_rows hsound (Store.sound_ofCommits _) h.found h.rebuilt h.faithful.rows.symm

theorem ofCommits_perform (h : d.Faithful) {a : Action} (hfits : d.Fits a) (ha : a ≠ .compact) :
    Store.ofCommits (d.perform a).journal.replay =
      (Store.ofCommits d.journal.replay).applyCommit (d.recordsOf a) := by
  rw [h.replay_perform hfits ha, Store.ofCommits_append, Store.foldl_applyCommit]
  rfl

theorem perform_compact_of_blocked (h : d.compactionBlocked = true) : d.perform .compact = d := by
  change d.compact.2 = d
  rw [compact, if_pos h]

theorem perform_compact (h : d.compactionBlocked = false) :
    d.perform .compact = { d with journal := d.journal.compact d.store.snapshot } := by
  change d.compact.2 = _
  rw [compact, h]
  rfl

theorem replay_compact (h : d.compactionBlocked = false)
    (hlegible : ∀ c ∈ d.store.snapshot, Journal.legible c = true) :
    (d.perform .compact).journal.replay = d.store.snapshot := by
  refine replay_of_bytes ?_ hlegible
  rw [perform_compact h]
  exact List.toList_toArray

theorem perform_restart {written : List Commit} (h : d.journal.replay = written) :
    d.perform .restart =
      { d with journal := .ofBytes d.journal.bytes, store := .ofCommits written } := by
  subst h
  have hsame : Journal.ofBytes (d.journal.damage .none).bytes = .ofBytes d.journal.bytes :=
    congrArg Journal.ofBytes restart_bytes
  change { d with
    journal := Journal.ofBytes (d.journal.damage .none).bytes
    store := Store.ofCommits (Journal.ofBytes (d.journal.damage .none).bytes).replay } = _
  rw [hsame]
  rfl

/-- What a compaction and a restart make of a desk. -/
theorem restart_compact (h : d.compactionBlocked = false)
    (hlegible : ∀ c ∈ d.store.snapshot, Journal.legible c = true) :
    (d.perform .compact).perform .restart =
      { d with
        journal := .ofBytes (Journal.entries d.store.snapshot).toArray
        store := .ofCommits d.store.snapshot } := by
  have hreplay := replay_compact h hlegible
  rw [perform_compact h] at hreplay ⊢
  exact perform_restart hreplay

theorem Transparent.perform (h : d.Transparent) (hlinked : d.store.Linked)
    (hids : d.store.nextVisitId + 1 ≠ 0) {a : Action} (hfits : d.Fits a)
    (hrepeats : Function.Injective d.references.reference) : (d.perform a).Transparent := by
  have hfaithful := h.faithful.perform hfits
  have hdrawn := h.drawn.perform hlinked (h.faithful.rows_perform a)
  have hlive := foundAll_recordsOf hlinked.sound h.found rfl hlinked h.drawn hrepeats a
  have hdisk := foundAll_recordsOf (Store.sound_ofCommits _) h.rebuilt h.faithful.rows hlinked
    h.drawn hrepeats a
  by_cases hcompact : a = .compact
  · subst hcompact
    refine ⟨hfaithful, hdrawn, ?_, ?_⟩
    · rw [store_perform (a := .compact) nofun hids]
      exact hlive
    · cases hblocked : d.compactionBlocked with
      | true =>
        rw [perform_compact_of_blocked hblocked]
        exact h.rebuilt
      | false =>
        rw [replay_compact hblocked (hfits.snapshot rfl), Store.snapshot_eq]
        exact h.found.rebuilt hlinked.sound d.store.rows.byKey_of
  · rw [← ofCommits_perform h.faithful hfits hcompact] at hdisk
    refine ⟨hfaithful, hdrawn, ?_, hdisk⟩
    by_cases hrestart : a = .restart
    · subst hrestart
      exact hdisk
    · rw [store_perform hrestart hids]
      exact hlive

/-! ## Runs -/

theorem Transparent.run (h : d.Transparent) {actions : List Action}
    (hlinked : d.Throughout (fun d => d.store.Linked) actions)
    (hrange : d.Throughout InRange actions) (hfits : d.Along Fits actions)
    (hrepeats : Function.Injective d.references.reference) : (d.run actions).Transparent := by
  induction actions generalizing d with
  | nil => exact h
  | cons a actions ih =>
    refine ih (h.perform hlinked.1 hrange.1.ids hfits.1 hrepeats) hlinked.2 hrange.2 hfits.2 ?_
    rw [(d.later_perform a).reference]
    exact hrepeats

theorem transparent_openOn (policy : BookingPolicy) (now : Moment)
    (prisoners : Std.ExtTreeMap String PrisonerContext) (references : ReferenceSource) :
    (openOn #[] policy now prisoners references).Transparent := by
  have hempty := store_openOn_nil policy now prisoners references
  refine ⟨faithful_openOn [] rfl (by simp) policy now prisoners references, fun v hv => ?_, ?_, ?_⟩
  · rw [hempty] at hv
    exact absurd hv (not_hasVisit_empty v)
  · rw [hempty]
    exact Store.foundAll_empty
  · change (openOn #[] policy now prisoners references).store.FoundAll
    rw [hempty]
    exact Store.foundAll_empty

theorem ofCommits_perform_eq (h : d.Faithful) (hids : d.store.nextVisitId + 1 ≠ 0) {a : Action}
    (hfits : d.Fits a) (ha : a ≠ .compact) (hsame : Store.ofCommits d.journal.replay = d.store) :
    Store.ofCommits (d.perform a).journal.replay = (d.perform a).store := by
  by_cases hrestart : a = .restart
  · subst hrestart
    rfl
  · rw [ofCommits_perform h hfits ha, hsame, store_perform hrestart hids]

/-- Without a compaction the journal gives the very store back. -/
theorem ofCommits_run (h : d.Faithful) {actions : List Action}
    (hrange : d.Throughout InRange actions) (hfits : d.Along Fits actions)
    (hcompact : ∀ a ∈ actions, a ≠ .compact) (hsame : Store.ofCommits d.journal.replay = d.store) :
    Store.ofCommits (d.run actions).journal.replay = (d.run actions).store := by
  induction actions generalizing d with
  | nil => exact hsame
  | cons a actions ih =>
    obtain ⟨ha, hactions⟩ := List.forall_mem_cons.mp hcompact
    exact ih (h.perform hfits.1) hrange.2 hfits.2 hactions
      (ofCommits_perform_eq h hrange.1.ids hfits.1 ha hsame)

/-- Wherever a run from an empty journal stands, a desk opened on its journal agrees with it. If the
run has compacted nothing, the stores are the same, and so is the next visit id. -/
theorem rebuilt_agrees (policy : BookingPolicy) (now : Moment)
    (prisoners : Std.ExtTreeMap String PrisonerContext) (references : ReferenceSource)
    (hrepeats : Function.Injective references.reference) (actions : List Action)
    (hrange : (openOn #[] policy now prisoners references).Throughout InRange actions)
    (hfits : (openOn #[] policy now prisoners references).Along Fits actions) :
    let d := (openOn #[] policy now prisoners references).run actions
    let rebuilt := (openOn d.journal.bytes policy now prisoners references).store
    d.store.Agrees rebuilt ∧ ((∀ a ∈ actions, a ≠ .compact) → rebuilt = d.store) := by
  intro d rebuilt
  have hlinked := linked_throughout hrange
  have hfirst := transparent_openOn policy now prisoners references
  refine ⟨(hfirst.run hlinked hrange hfits hrepeats).agrees hlinked.last.sound, fun hcompact => ?_⟩
  exact ofCommits_run hfirst.faithful hrange hfits hcompact rfl

/-- Wherever a run from an empty journal stands, a snapshot builds a store that agrees, in whatever
order it comes to the rows. -/
theorem snapshots_agree (policy : BookingPolicy) (now : Moment)
    (prisoners : Std.ExtTreeMap String PrisonerContext) (references : ReferenceSource)
    (hrepeats : Function.Injective references.reference) (actions : List Action)
    (hrange : (openOn #[] policy now prisoners references).Throughout InRange actions)
    (hfits : (openOn #[] policy now prisoners references).Along Fits actions) :
    let d := (openOn #[] policy now prisoners references).run actions
    ∀ r : Reading, r.Of d.store.rows → d.store.Agrees (.ofCommits r.commits) := by
  intro d r hr
  have hlinked := linked_throughout hrange
  have hfound := ((transparent_openOn policy now prisoners references).run hlinked hrange hfits
    hrepeats).found
  exact hfound.agrees_rebuilt hlinked.last.sound hr

end Desk

namespace Sample

/-- References that grow longer and longer. -/
def growing : ReferenceSource := ⟨fun n => String.ofList (List.replicate (n + 1) 'a'), 0⟩

theorem growing_injective : Function.Injective growing.reference := by
  intro i j h
  have hlength := congrArg (fun s : String => s.toList.length) h
  simpa [growing] using hlength

def grown : Desk := .openOn #[] policy desk.now ∅ growing

def cancellation : Action := .cancel "aa" ⟨.prisonerCancelled, none, "clerk"⟩

/-- Application aaa for booking aa is cancelled as a draft between a compaction and a restart. -/
def upheaval : List Action := actions ++ [.compact, cancellation, .restart]

theorem fits_upheaval : grown.Along Desk.Fits upheaval := by
  refine ⟨⟨?_, nofun⟩, ⟨?_, nofun⟩, ⟨?_, nofun⟩, ⟨?_, fun _ => ?_⟩, ⟨?_, nofun⟩, ⟨?_, nofun⟩,
    trivial⟩
  all_goals decide +kernel

/-- The compaction leaves the snapshot of the small run. -/
theorem replay_compacted : (grown.run (upheaval.take 4)).Faithful ∧
    (grown.run (upheaval.take 4)).journal.replay = (grown.run actions).store.snapshot := by
  obtain ⟨hfirst, hsecond, hthird, hcompact, -⟩ := fits_upheaval
  refine ⟨?_, Desk.replay_compact (by decide +kernel) (hcompact.snapshot rfl)⟩
  exact (Desk.faithful_openOn [] rfl (by simp) policy _ _ growing).run
    ⟨hfirst, hsecond, hthird, hcompact, trivial⟩

/-- What the restart reads is the snapshot and the cancellation. -/
theorem replay_upheaval : (grown.run (upheaval.take 5)).Faithful ∧
    (grown.run (upheaval.take 5)).journal.replay = (grown.run actions).store.snapshot ++
      (grown.run (upheaval.take 4)).commitsOf cancellation := by
  obtain ⟨-, -, -, -, hcancel, -⟩ := fits_upheaval
  obtain ⟨hfaithful, hreplay⟩ := replay_compacted
  rw [← hreplay]
  exact ⟨hfaithful.perform hcancel, hfaithful.replay_perform hcancel nofun⟩

theorem inRange_upheaval : grown.Throughout Desk.InRange upheaval := by
  -- the sizes are those of the entries, which are quicker to write than to append
  have hwritten : (grown.run actions).journal.bytes.size < 2 ^ 64 := by
    rw [← Array.length_toList, Desk.bytes_run (by simp [actions])]
    decide +kernel
  have hcompacted : (grown.run (upheaval.take 4)).journal.bytes.size < 2 ^ 64 := by
    rw [replay_compacted.1.size_bytes, replay_compacted.2]
    decide +kernel
  obtain ⟨hfaithful, hreplay⟩ := replay_upheaval
  have hbytes : (grown.run (upheaval.take 5)).journal.bytes.size < 2 ^ 64 := by
    rw [hfaithful.size_bytes, hreplay]
    decide +kernel
  have hids : ((grown.run (upheaval.take 5)).restart .none).store.nextVisitId + 1 ≠ 0 := by
    rw [Desk.store_restart, hreplay]
    decide +kernel
  refine ⟨⟨?_, ?_⟩, ⟨?_, ?_⟩, ⟨?_, ?_⟩, ⟨hwritten, ?_⟩, ⟨hcompacted, ?_⟩, ⟨hbytes, ?_⟩, ?_, hids⟩
  case refine_10 => exact (congrArg Array.size Desk.restart_bytes).trans_lt hbytes
  all_goals decide +kernel

end Sample

/-- Live and rebuilt, the desk of the run lists the audits of its booking alike. -/
theorem Desk.rebuilt_agrees_sample :
    let d := Sample.grown.run Sample.upheaval
    let rebuilt := (Desk.openOn d.journal.bytes Sample.policy Sample.desk.now ∅
      Sample.growing).store
    d.store.Agrees rebuilt ∧ rebuilt.auditsFor "aa" = d.store.auditsFor "aa" :=
  let hagrees := (rebuilt_agrees Sample.policy _ _ Sample.growing Sample.growing_injective
    Sample.upheaval Sample.inRange_upheaval Sample.fits_upheaval).1
  ⟨hagrees, (hagrees.auditsFor "aa").symm⟩

end PrisonVisits
