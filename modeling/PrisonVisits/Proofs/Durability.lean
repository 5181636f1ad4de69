import PrisonVisits.Proofs.Runs
import PrisonVisits.Proofs.TornEntries
import PrisonVisits.Proofs.UnusedReferences

/-! # What a journal that was cut off still keeps

A crash cuts the journal off, and the desk is opened again on what is left. If the cut fell between
two entries, everything that is committed from then on stands in the journal behind the commits that
were whole. If it fell inside an entry, the torn part stays where it is and new entries go behind
it, where a reader does not find them; then what is committed next may be lost. -/

namespace PrisonVisits

namespace Desk

/-- Every commit that the action writes fits its length field, those of a snapshot included. -/
structure Fits (d : Desk) (a : Action) : Prop where
  commits : ∀ c ∈ d.commitsOf a, Journal.legible c = true
  snapshot : a = .compact → ∀ c ∈ d.store.snapshot, Journal.legible c = true

theorem AppendsAtMost.fits {n : Nat} {d : Desk} {a : Action} (h : AppendsAtMost n d a)
    (hn : n < 2 ^ 32) : d.Fits a where
  commits := fun _ hc =>
    legible_of_length_entry (Nat.lt_of_le_of_lt (Nat.le_trans (length_entry_le hc) h.2.1) hn)
  snapshot := fun ha => absurd ha h.1

/-- The commits that a run appends to the journal. -/
def commitsAlong : Desk → List Action → List Commit
  | _, [] => []
  | d, a :: actions => d.commitsOf a ++ (d.perform a).commitsAlong actions

/-- A restart after the later actions restores these commits and those of the actions; one by one,
where no compaction has put a snapshot in their place. -/
structure Restores (whole : List Commit) (d : Desk) (later : List Action) : Prop where
  rows : ((d.run later).restart .none).store.rows =
    (Store.ofCommits (whole ++ d.commitsAlong later)).rows
  replay : (∀ a ∈ later, a ≠ .compact) →
    ((d.run later).restart .none).journal.replay = whole ++ d.commitsAlong later

/-! ## Faithful journals -/

/-- The journal can be read to its end, and its commits make the rows of the desk. -/
structure Faithful (d : Desk) : Prop where
  read : d.ReadToEnd
  legible : ∀ c ∈ d.journal.replay, Journal.legible c = true
  rows : (Store.ofCommits d.journal.replay).rows = d.store.rows

variable {d : Desk}

theorem faithful_of_bytes (written : List Commit)
    (hbytes : d.journal.bytes.toList = Journal.entries written)
    (hlegible : ∀ c ∈ written, Journal.legible c = true)
    (hrows : (Store.ofCommits written).rows = d.store.rows) : d.Faithful := by
  have hreplay := replay_of_bytes hbytes hlegible
  refine ⟨readToEnd_of_bytes hbytes hlegible, ?_, ?_⟩
  · rw [hreplay]
    exact hlegible
  · rw [hreplay]
    exact hrows

theorem faithful_openOn {bytes : Array UInt8} (written : List Commit)
    (hbytes : bytes.toList = Journal.entries written)
    (hlegible : ∀ c ∈ written, Journal.legible c = true) (policy : BookingPolicy) (now : Moment)
    (prisoners : Std.ExtTreeMap String PrisonerContext) (references : ReferenceSource) :
    (openOn bytes policy now prisoners references).Faithful := by
  refine faithful_of_bytes written hbytes hlegible ?_
  change _ = (Store.ofCommits (openOn bytes policy now prisoners references).journal.replay).rows
  rw [replay_of_bytes hbytes hlegible]

theorem Faithful.size_bytes (h : d.Faithful) :
    d.journal.bytes.size = (Journal.entries d.journal.replay).length := by
  rw [h.read, Array.length_toList]

theorem Faithful.restart_store (h : d.Faithful) : (d.restart .none).store.rows = d.store.rows := by
  rw [store_restart]
  exact h.rows

/-- The rows of a desk with a faithful journal take the records of every action. -/
theorem Faithful.rows_perform (h : d.Faithful) (a : Action) :
    (d.perform a).store.rows = d.store.rows.applyCommit (d.recordsOf a) := by
  by_cases ha : a = .restart
  · subst ha
    exact h.restart_store
  · exact Desk.rows_perform ha

/-- The journal of a faithful desk takes the commits of an action, and they can all be read. -/
theorem Faithful.appends (h : d.Faithful) {a : Action} (hfits : d.Fits a) (ha : a ≠ .compact) :
    (d.perform a).journal.bytes.toList = Journal.entries (d.journal.replay ++ d.commitsOf a) ∧
      ∀ c ∈ d.journal.replay ++ d.commitsOf a, Journal.legible c = true := by
  refine ⟨?_, fun c hc => ?_⟩
  · rw [bytes_perform ha, Journal.entries_append, h.read]
  · rcases List.mem_append.mp hc with hc | hc
    · exact h.legible c hc
    · exact hfits.commits c hc

theorem Faithful.replay_perform (h : d.Faithful) {a : Action} (hfits : d.Fits a)
    (ha : a ≠ .compact) : (d.perform a).journal.replay = d.journal.replay ++ d.commitsOf a :=
  replay_of_bytes (h.appends hfits ha).1 (h.appends hfits ha).2

theorem Faithful.keyed (h : d.Faithful) : d.store.rows.Keyed := by
  rw [← h.rows]
  exact (Store.sound_ofCommits _).keyed

theorem Faithful.perform (h : d.Faithful) {a : Action} (hfits : d.Fits a) :
    (d.perform a).Faithful := by
  by_cases ha : a = .compact
  · subst ha
    change d.compact.2.Faithful
    unfold compact
    split
    · exact h
    · exact faithful_of_bytes d.store.snapshot List.toList_toArray (hfits.snapshot rfl)
        (Store.rows_ofCommits_snapshot h.keyed)
  · obtain ⟨hbytes, hlegible⟩ := h.appends hfits ha
    refine faithful_of_bytes (d.journal.replay ++ d.commitsOf a) hbytes hlegible ?_
    rw [Store.rows_ofCommits_append, h.rows, h.rows_perform]
    rfl

theorem Faithful.run (h : d.Faithful) {actions : List Action} (hfits : d.Along Fits actions) :
    (d.run actions).Faithful := by
  induction actions generalizing d with
  | nil => exact h
  | cons a actions ih => exact ih (h.perform hfits.1) hfits.2

theorem Faithful.rows_run (h : d.Faithful) {actions : List Action} (hfits : d.Along Fits actions) :
    (d.run actions).store.rows = d.store.rows.applyCommit (d.commitsAlong actions).flatten := by
  induction actions generalizing d with
  | nil => rfl
  | cons a actions ih =>
    rw [commitsAlong, List.flatten_append, Rows.applyCommit_append]
    change ((d.perform a).run actions).store.rows = _
    rw [ih (h.perform hfits.1) hfits.2, h.rows_perform]
    rfl

theorem bytes_run {actions : List Action} (h : ∀ a ∈ actions, a ≠ .compact) :
    (d.run actions).journal.bytes.toList =
      d.journal.bytes.toList ++ Journal.entries (d.commitsAlong actions) := by
  induction actions generalizing d with
  | nil => exact (List.append_nil _).symm
  | cons a actions ih =>
    obtain ⟨ha, hactions⟩ := List.forall_mem_cons.mp h
    change ((d.perform a).run actions).journal.bytes.toList = _
    rw [ih hactions, bytes_perform ha, commitsAlong, Journal.entries_append, List.append_assoc]

theorem legible_commitsAlong {actions : List Action} (hfits : d.Along Fits actions) :
    ∀ c ∈ d.commitsAlong actions, Journal.legible c = true := by
  induction actions generalizing d with
  | nil => exact fun c hc => absurd hc List.not_mem_nil
  | cons a actions ih =>
    intro c hc
    rcases List.mem_append.mp hc with hc | hc
    · exact hfits.1.commits c hc
    · exact ih hfits.2 c hc

/-- Where the journal is faithful nothing is lost. -/
theorem Faithful.restores (h : d.Faithful) {later : List Action} (hfits : d.Along Fits later) :
    Restores d.journal.replay d later where
  rows := by
    rw [(h.run hfits).restart_store, h.rows_run hfits, Store.rows_ofCommits_append, h.rows]
  replay := by
    intro hcompact
    refine replay_of_bytes ?_ ?_
    · rw [restart_bytes, bytes_run hcompact, Journal.entries_append, h.read]
    · intro c hc
      rcases List.mem_append.mp hc with hc | hc
      · exact h.legible c hc
      · exact legible_commitsAlong hfits c hc

/-! ## Torn journals -/

/-- A desk that draws an unused reference saves an empty group under it. -/
theorem commitsOf_createGroup {reference : Reference}
    (hunused : d.store.containsReference reference = false)
    (hdraws : d.references = ⟨fun _ => reference, 0⟩) (prisonCode : String) {name : String}
    (hname : name ∈ ["a", "b"]) :
    d.commitsOf (.createGroup prisonCode name (.incentives [])) =
      [Journal.probe reference prisonCode name] := by
  have hchecked : checkName name = .ok () := by
    simp only [List.mem_cons, List.not_mem_nil, or_false] at hname
    rcases hname with rfl | rfl <;> decide
  have hfresh : d.store.freshReference.run.run d.references =
      (.ok reference, ⟨fun _ => reference, 1⟩) := by
    rw [hdraws]
    exact Store.run_freshReference hunused
  have hrun : (d.planCreateGroup prisonCode name (.incentives [])).run.run d.references =
      (.ok (.of ⟨reference, prisonCode, name, .incentives []⟩
        (Journal.probe reference prisonCode name)), ⟨fun _ => reference, 1⟩) := by
    unfold planCreateGroup
    rw [hchecked]
    change (d.store.freshReference >>= fun reference => _).run.run d.references = _
    rw [Plan.run_bind, hfresh]
    rfl
  have hgranted : d.granted
      (Transition.silent <$> d.planCreateGroup prisonCode name (.incentives [])) =
      some (.of () (Journal.probe reference prisonCode name)) := by
    unfold granted
    rw [run_silent, hrun]
    rfl
  rw [commitsOf_of_plan rfl, hgranted]
  rfl

/-- What a reader finds does not reach behind a tear, but a commit that is appended there does. -/
theorem exists_not_restores {whole : List Commit} (hwhole : ∀ c ∈ whole, Journal.legible c = true)
    {c : Commit} (hc : Journal.legible c = true) {k : Nat} (hpos : 0 < k)
    (hk : k < (Journal.entry c).length) {bytes : Array UInt8} (hsize : bytes.size < 2 ^ 64)
    (hbytes : bytes.toList = Journal.entries whole ++ (Journal.entry c).take k)
    (policy : BookingPolicy) (now : Moment) (prisoners : Std.ExtTreeMap String PrisonerContext) :
    ∃ references later, (openOn bytes policy now prisoners references).Along Fits later ∧
      ¬Restores whole (openOn bytes policy now prisoners references) later := by
  have hentries : (Journal.entries whole).length < 2 ^ 64 := by
    have hlength := congrArg List.length hbytes
    rw [Array.length_toList, List.length_append] at hlength
    omega
  obtain ⟨reference, hreference, hunused⟩ := exists_unused hentries
  obtain ⟨prisonCode, hcode, name, hname, hlost⟩ := Journal.exists_lost hc hpos hk hreference
  obtain ⟨d, hd⟩ : ∃ d, d = openOn bytes policy now prisoners ⟨fun _ => reference, 0⟩ := ⟨_, rfl⟩
  have hstore : d.store = Store.ofCommits whole := by
    subst hd
    change Store.ofCommits (Journal.commits bytes.toList) = _
    rw [hbytes, Journal.commits_entries_append hwhole,
      Journal.commits_of_none (Journal.readEntry_take_entry hc hk), List.append_nil]
  have hcommits : d.commitsOf (.createGroup prisonCode name (.incentives [])) =
      [Journal.probe reference prisonCode name] :=
    commitsOf_createGroup (by rw [hstore]; exact hunused) (by rw [hd]; rfl) prisonCode hname
  refine ⟨⟨fun _ => reference, 0⟩, [.createGroup prisonCode name (.incentives [])], ?_⟩
  rw [← hd]
  refine ⟨⟨⟨fun x hx => ?_, nofun⟩, trivial⟩, fun hrestores => hlost ?_⟩
  · rw [hcommits] at hx
    rw [List.mem_singleton.mp hx]
    exact Journal.legible_probe hreference hcode hname
  · have hreplay := hrestores.replay (by simp)
    have hall : d.commitsAlong [.createGroup prisonCode name (.incentives [])] =
        [Journal.probe reference prisonCode name] := by
      rw [commitsAlong, commitsAlong, hcommits, List.append_nil]
    have hfile : d.journal.bytes = bytes := by rw [hd]; rfl
    rw [Journal.replay, restart_bytes, bytes_run (by simp), hall, hfile, hbytes, List.append_assoc,
      Journal.commits_entries_append hwhole] at hreplay
    rw [← List.append_cancel_left hreplay]
    simp [Journal.entries]

/-! ## Cuts -/

/-- A journal that is cut off keeps the commits that are whole. Whatever is committed afterwards is
restored along with them, in every run, exactly if no part of an entry is left behind them. -/
theorem restores_iff_untorn (policy : BookingPolicy) (now : Moment)
    (prisoners : Std.ExtTreeMap String PrisonerContext) (references : ReferenceSource)
    (actions : List Action)
    (hfits : (openOn #[] policy now prisoners references).Along Fits actions)
    (hsize : ((openOn #[] policy now prisoners references).run actions).journal.bytes.size < 2 ^ 64)
    (n : Nat) :
    let journal := ((openOn #[] policy now prisoners references).run actions).journal
    let cut := journal.bytes.take n
    Restores [] (openOn #[] policy now prisoners references) actions ∧
    ∃ whole lost torn, journal.replay = whole ++ lost ∧ cut.toList = Journal.entries whole ++ torn ∧
      (torn = [] ∨ ∃ c ∈ lost.head?, ∃ k < (Journal.entry c).length,
        torn = (Journal.entry c).take k) ∧
      ((∀ policy now prisoners references later,
        (openOn cut policy now prisoners references).Along Fits later →
          Restores whole (openOn cut policy now prisoners references) later) ↔ torn = []) := by
  intro journal cut
  have hempty : (openOn #[] policy now prisoners references).Faithful :=
    faithful_openOn [] rfl (by simp) policy now prisoners references
  have hnothing : (openOn #[] policy now prisoners references).journal.replay = [] :=
    Journal.commits_nil
  have hfaithful := hempty.run hfits
  refine ⟨hnothing ▸ hempty.restores hfits, ?_⟩
  obtain ⟨whole, lost, torn, hsplit, htake, htorn⟩ := Journal.exists_cut journal.replay n
  have hcut : cut.toList = Journal.entries whole ++ torn := by
    rw [← htake, hfaithful.read]
    simp [cut, journal]
  have hshort : cut.size < 2 ^ 64 := by
    have hle : cut.size ≤ journal.bytes.size := by simp [cut]
    exact Nat.lt_of_le_of_lt hle hsize
  have hlegible : ∀ c ∈ whole ++ lost, Journal.legible c = true := by
    rw [← hsplit]
    exact hfaithful.legible
  obtain ⟨hwhole, hlost⟩ := List.forall_mem_append.mp hlegible
  refine ⟨whole, lost, torn, hsplit, hcut, htorn, fun hrestores => ?_, ?_⟩
  · rcases htorn with hnone | ⟨c, hc, k, hk, rfl⟩
    · exact hnone
    · cases k with
      | zero => rfl
      | succ k =>
        obtain ⟨references, later, hlater, hnot⟩ := exists_not_restores hwhole
          (hlost c (List.mem_of_mem_head? hc)) (Nat.succ_pos k) hk hshort hcut policy now
          prisoners
        exact absurd (hrestores policy now prisoners references later hlater) hnot
  · rintro rfl policy now prisoners references later hlater
    rw [List.append_nil] at hcut
    have hopened := faithful_openOn whole hcut hwhole policy now prisoners references
    have hreplay := replay_of_bytes (d := openOn cut policy now prisoners references) hcut hwhole
    rw [← hreplay]
    exact hopened.restores hlater

/-- When only a byte of its journal is left, the desk may lose what it commits next. -/
theorem restores_iff_untorn_sample :
    ¬∀ policy now prisoners references later,
      (openOn ((Sample.desk.run Sample.actions).journal.bytes.take 1) policy now prisoners
        references).Along Fits later →
      Restores [] (openOn ((Sample.desk.run Sample.actions).journal.bytes.take 1) policy now
        prisoners references) later := by
  intro hrestores
  have hfits : Sample.desk.Along Fits Sample.actions :=
    Sample.along_actions.imp fun _ _ h => h.fits (by decide)
  obtain ⟨-, whole, lost, torn, -, hcut, -, hiff⟩ := restores_iff_untorn Sample.policy _ _
    Sample.letters Sample.actions hfits Sample.inRange_actions.last.bytes 1
  have hlength : ((Sample.desk.run Sample.actions).journal.bytes.take 1).toList.length = 1 := by
    have hbytes : (Sample.desk.run Sample.actions).journal.bytes.toList =
        Journal.entries (Sample.desk.commitsAlong Sample.actions) :=
      bytes_run (by simp [Sample.actions])
    have hsome : 1 ≤ (Journal.entries (Sample.desk.commitsAlong Sample.actions)).length := by
      decide +kernel
    have htake : ((Sample.desk.run Sample.actions).journal.bytes.take 1).toList =
        (Sample.desk.run Sample.actions).journal.bytes.toList.take 1 := by simp
    rw [htake, hbytes, List.length_take]
    omega
  have hsum := (congrArg List.length hcut).symm.trans hlength
  rw [List.length_append] at hsum
  cases whole with
  | nil =>
    rw [hiff.mp hrestores] at hsum
    cases hsum
  | cons c whole =>
    have hentry : (Journal.entry c).length ≤ (Journal.entries (c :: whole)).length :=
      length_entry_le List.mem_cons_self
    rw [Journal.length_entry] at hentry
    omega

end Desk

end PrisonVisits
