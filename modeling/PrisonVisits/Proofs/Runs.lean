import PrisonVisits.Proofs.Commits
import PrisonVisits.Proofs.SnapshotLinks

/-! # What runs keep

A property of the rows that every commit keeps holds after every run, restarts included: the journal
gives the same rows back, or those of an earlier commit should one not fit its length field. Beside
the rows a property may speak of the commits that a reader of the journal finds. The only bounds on
the length of a run are those of 64-bit numbers, stated here, and the one that `SessionLoad` puts on
the visits of a room and day. -/

namespace PrisonVisits

namespace Desk

/-- The numbers of the desk fit their 64 bits: the length of the journal, and the id behind the
next. -/
structure InRange (d : Desk) : Prop where
  bytes : d.journal.bytes.size < 2 ^ 64
  ids : d.store.nextVisitId + 1 ≠ 0

/-- The reader of the journal finds a commit in every entry. -/
def ReadToEnd (d : Desk) : Prop := Journal.entries d.journal.replay = d.journal.bytes.toList

/-- Every desk of a run, the first and the last included, has the property. -/
def Throughout (q : Desk → Prop) : Desk → List Action → Prop
  | d, [] => q d
  | d, a :: actions => q d ∧ Throughout q (d.perform a) actions

/-- Every action of a run meets the condition where it is performed. -/
def Along (p : Desk → Action → Prop) : Desk → List Action → Prop
  | _, [] => True
  | d, a :: actions => p d a ∧ Along p (d.perform a) actions

theorem Throughout.head {q : Desk → Prop} {d : Desk} {actions : List Action}
    (h : d.Throughout q actions) : q d := by
  cases actions with
  | nil => exact h
  | cons a actions => exact h.1

theorem Throughout.last {q : Desk → Prop} {d : Desk} {actions : List Action}
    (h : d.Throughout q actions) : q (d.run actions) := by
  induction actions generalizing d with
  | nil => exact h
  | cons a actions ih => exact ih h.2

theorem Throughout.imp {q q' : Desk → Prop} (hq : ∀ d, q d → q' d) {d : Desk}
    {actions : List Action} (h : d.Throughout q actions) : d.Throughout q' actions := by
  induction actions generalizing d with
  | nil => exact hq d h
  | cons a actions ih => exact ⟨hq d h.1, ih h.2⟩

theorem Throughout.and {q q' : Desk → Prop} {d : Desk} {actions : List Action}
    (h : d.Throughout q actions) (h' : d.Throughout q' actions) :
    d.Throughout (fun d => q d ∧ q' d) actions := by
  induction actions generalizing d with
  | nil => exact ⟨h, h'⟩
  | cons a actions ih => exact ⟨⟨h.1, h'.1⟩, ih h.2 h'.2⟩

theorem along_of_forall {p : Desk → Action → Prop} (hp : ∀ d a, p d a) (d : Desk)
    (actions : List Action) : d.Along p actions := by
  induction actions generalizing d with
  | nil => trivial
  | cons a actions ih => exact ⟨hp d a, ih _⟩

theorem Along.imp {p p' : Desk → Action → Prop} (hp : ∀ d a, p d a → p' d a) {d : Desk}
    {actions : List Action} (h : d.Along p actions) : d.Along p' actions := by
  induction actions generalizing d with
  | nil => trivial
  | cons a actions ih => exact ⟨hp d a h.1, ih h.2⟩

theorem throughout_append {q : Desk → Prop} {d : Desk} {earlier later : List Action} :
    d.Throughout q (earlier ++ later) ↔
      d.Throughout q earlier ∧ (d.run earlier).Throughout q later := by
  induction earlier generalizing d with
  | nil => exact ⟨fun h => ⟨h.head, h⟩, And.right⟩
  | cons a earlier ih => exact (and_congr_right fun _ => ih).trans and_assoc.symm

theorem along_append {p : Desk → Action → Prop} {d : Desk} {earlier later : List Action} :
    d.Along p (earlier ++ later) ↔ d.Along p earlier ∧ (d.run earlier).Along p later := by
  induction earlier generalizing d with
  | nil => exact ⟨fun h => ⟨trivial, h⟩, And.right⟩
  | cons a earlier ih => exact (and_congr_right fun _ => ih).trans and_assoc.symm

end Desk

/-- What stands around the store and its journal. -/
structure Surroundings where
  policy : BookingPolicy
  now : Moment
  prisoners : Std.ExtTreeMap String PrisonerContext

def Desk.around (d : Desk) : Surroundings := ⟨d.policy, d.now, d.prisoners⟩

/-! ## Properties that commits keep -/

/-- The action changes what stands around the store. -/
def Action.turns : Action → Bool
  | .setClock _ | .setPrisoner _ => true
  | _ => false

/-- A property of the rows and one of the commits that a reader finds, both with what stands around;
every action that is allowed keeps them. If journals are read to their ends, only whole snapshots
matter. -/
structure Preserved (whole : Prop) (allowed : Desk → Action → Prop)
    (P : Surroundings → Rows → Prop) (H : Surroundings → List Commit → Prop) : Prop where
  expire : ∀ d, allowed d .expire
  empty : ∀ policy now prisoners, H ⟨policy, now, prisoners⟩ []
  restored : ∀ {around commits}, H around commits → P around (Store.ofCommits commits).rows
  writes : ∀ {d a c}, d.store.Linked → P d.around d.store.rows → allowed d a → d.Writes a c →
    P d.around (d.store.rows.applyCommit c)
  appended : ∀ {d a c commits}, d.store.Linked → P d.around d.store.rows → allowed d a →
    d.Writes a c → (Store.ofCommits commits).rows = d.store.rows → H d.around commits →
    H d.around (commits ++ [c])
  compacted : ∀ {s : Store} {around n}, s.Linked → P around s.rows →
    (whole → s.snapshot.length ≤ n) → H around (s.snapshot.take n)
  turned : ∀ {d a t}, a.turns = true → allowed d a → P d.around t → P (d.perform a).around t
  turnedDisk : ∀ {d a commits}, a.turns = true → allowed d a → H d.around commits →
    H (d.perform a).around commits

namespace Desk

variable {P : Surroundings → Rows → Prop} {H : Surroundings → List Commit → Prop} {d e : Desk}

/-- The journal is the entries of these commits, as far as it matters. -/
structure Written (H : List Commit → Prop) (d : Desk) (written : List Commit) : Prop where
  bytes : d.journal.bytes.toList = Journal.entries written
  sized : ∀ c ∈ written, (Wire.encode c).length < 2 ^ 64
  linked : (Store.ofCommits (written.takeWhile Journal.legible)).Linked
  readable : H (written.takeWhile Journal.legible)
  same : written.all Journal.legible = true → (Store.ofCommits written).rows = d.store.rows

/-- The properties hold of the desk and of its journal. -/
structure Kept (P : Surroundings → Rows → Prop) (H : Surroundings → List Commit → Prop) (d : Desk) :
    Prop where
  linked : d.store.Linked
  live : P d.around d.store.rows
  disk : ∃ written, Written (H d.around) d written

/-- The properties look at rows and links only, and at what stands around. -/
theorem Kept.of_same (h : Kept P H d) (hlinked : e.store.Linked)
    (hrows : e.store.rows = d.store.rows) (hjournal : e.journal = d.journal)
    (haround : e.around = d.around) : Kept P H e := by
  obtain ⟨written, hbytes, hsized, hlinked', hreadable, hsame⟩ := h.disk
  refine ⟨hlinked, ?_, written, ?_, hsized, hlinked', ?_, ?_⟩
  · rw [hrows, haround]
    exact h.live
  · rw [hjournal]
    exact hbytes
  · rw [haround]
    exact hreadable
  · rw [hrows]
    exact hsame

/-! ## One action -/

theorem linked_takeVisitId (h : d.store.Linked) (hids : d.store.nextVisitId + 1 ≠ 0) :
    d.store.takeVisitId.2.Linked where
  sound := h.sound.takeVisitId
  rows := h.rows
  found := h.found
  below := fun v hv => UInt64.lt_trans (h.below v hv) (Store.lt_succ_of_ne_zero hids)

/-- A store with the rows of the desk keeps its links when it takes what an action commits there. -/
theorem linked_of_writes {s : Store} (hs : s.Linked) (h : d.store.Linked)
    (hrows : s.rows = d.store.rows) (hids : d.store.nextVisitId + 1 ≠ 0) {a : Action} {c : Commit}
    (hw : d.Writes a c) : (s.applyCommit c).Linked where
  sound := hs.sound.applyCommit c
  rows := by
    rw [Store.rows_applyCommit, hrows]
    exact linked_rows_of_writes h hw
  found := by
    refine hs.found.applyCommit hs.sound ?_
    rw [hrows]
    exact orderly_of_writes h hw
  below := by
    refine hs.below.applyCommit fun v hv => ?_
    rcases renewed_of_writes h hw hv with ⟨old, hold, hid, -⟩ | ⟨-, hid⟩
    · rw [← hid]
      exact Store.succ_ne_zero_of_lt (h.below old hold)
    · rw [hid]
      exact hids

variable {whole : Prop} {allowed : Desk → Action → Prop}

theorem takeWhile_of_all {written : List Commit} (h : written.all Journal.legible = true) :
    written.takeWhile Journal.legible = written := by
  rw [← List.append_nil written, List.takeWhile_append_of_pos (List.all_eq_true.mp h)]
  rfl

theorem takeWhile_concat (written : List Commit) (c : Commit) :
    (written ++ [c]).takeWhile Journal.legible =
      if (written ++ [c]).all Journal.legible then written ++ [c]
      else written.takeWhile Journal.legible := by
  split
  · next h => exact takeWhile_of_all h
  · next h =>
    rw [List.takeWhile_append]
    split
    · next hlength =>
      have hwritten := (List.takeWhile_prefix Journal.legible (l := written)).eq_of_length hlength
      have hc : Journal.legible c = false := by
        refine eq_false_of_ne_true fun hc => h ?_
        rw [List.all_append, Bool.and_eq_true, List.all_eq_true]
        have hall := List.all_takeWhile (p := Journal.legible) (l := written)
        rw [hwritten] at hall
        exact ⟨List.all_eq_true.mp hall, by simpa using hc⟩
      rw [List.takeWhile_cons_of_neg (by rw [hc]; decide), List.append_nil, hwritten]
    · rfl

/-- The journal takes a commit that the rows of the desk take. -/
theorem Written.commit {written : List Commit} (hp : Preserved whole allowed P H)
    (h : Written (H d.around) e written) (hd : d.store.Linked) (hlive : P d.around d.store.rows)
    (hids : d.store.nextVisitId + 1 ≠ 0) (hrows : e.store.rows = d.store.rows) {a : Action}
    {c : Commit} (hw : d.Writes a c) (hallowed : allowed d a) (hc : c ≠ [])
    (hbytes : (e.commit c).journal.bytes.size < 2 ^ 64) :
    Written (H d.around) (e.commit c) (written ++ [c]) := by
  have hadded : (e.commit c).journal.bytes.toList = Journal.entries (written ++ [c]) := by
    rw [commit_bytes, h.bytes, Journal.entries_append, List.filter_cons_of_pos (by simpa using hc),
      List.filter_nil]
  have hsize : (Wire.encode c).length < 2 ^ 64 := by
    have hlength := congrArg List.length hadded
    rw [Array.length_toList, Journal.entries_append, List.length_append] at hlength
    have hentry : (Journal.entries [c]).length = (Wire.encode c).length + 8 := by
      rw [← Journal.length_entry]
      simp [Journal.entries]
    omega
  have hsized : ∀ x ∈ written ++ [c], (Wire.encode x).length < 2 ^ 64 := by
    intro x hx
    rcases List.mem_append.mp hx with hx | hx
    · exact h.sized x hx
    · rw [List.mem_singleton.mp hx]
      exact hsize
  by_cases hall : (written ++ [c]).all Journal.legible = true
  · have hwritten : written.all Journal.legible = true := by
      rw [List.all_append, Bool.and_eq_true] at hall
      exact hall.1
    have hbefore : (Store.ofCommits written).rows = d.store.rows := (h.same hwritten).trans hrows
    have hlinked := h.linked
    have hreadable := h.readable
    rw [takeWhile_of_all hwritten] at hlinked hreadable
    have hstore : Store.ofCommits (written ++ [c]) = (Store.ofCommits written).applyCommit c :=
      Store.ofCommits_append written [c]
    refine ⟨hadded, hsized, ?_, ?_, fun _ => ?_⟩
    · rw [takeWhile_of_all hall, hstore]
      exact linked_of_writes hlinked hd hbefore hids hw
    · rw [takeWhile_of_all hall]
      exact hp.appended hd hlive hallowed hw hbefore hreadable
    · rw [hstore, Store.rows_applyCommit, hbefore, commit_store, Store.rows_applyCommit, hrows]
  · refine ⟨hadded, hsized, ?_, ?_, fun hlegible => absurd hlegible hall⟩
    · rw [takeWhile_concat, if_neg hall]
      exact h.linked
    · rw [takeWhile_concat, if_neg hall]
      exact h.readable

/-- A desk with the rows of the one where an action was granted takes its commit. -/
theorem Kept.commit (hp : Preserved whole allowed P H) (h : Kept P H e) (hd : d.store.Linked)
    (hids : d.store.nextVisitId + 1 ≠ 0) (hrows : e.store.rows = d.store.rows)
    (haround : e.around = d.around) {a : Action} {c : Commit} (hw : d.Writes a c)
    (hallowed : allowed d a) (hbytes : (e.commit c).journal.bytes.size < 2 ^ 64) :
    Kept P H (e.commit c) := by
  by_cases hc : c = []
  · subst hc
    exact h
  have hsame : (e.commit c).around = d.around := by
    rw [← haround]
    cases c <;> rfl
  have hlive : P d.around d.store.rows := by
    rw [← haround, ← hrows]
    exact h.live
  obtain ⟨written, hwritten⟩ := h.disk
  rw [haround] at hwritten
  refine ⟨?_, ?_, written ++ [c], ?_⟩
  · rw [commit_store]
    exact linked_of_writes h.linked hd hrows hids hw
  · rw [hsame, commit_store, Store.rows_applyCommit, hrows]
    exact hp.writes hd hlive hallowed hw
  · rw [hsame]
    exact hwritten.commit hp hd hlive hids hrows hw hallowed hc hbytes

theorem nextVisitId_applyCommit {s : Store} {c : Commit} (h : ∀ v, .visitSaved v ∉ c) :
    (s.applyCommit c).nextVisitId = s.nextVisitId := by
  induction c generalizing s with
  | nil => rfl
  | cons r c ih =>
    refine (ih (s := s.apply r) fun v hv => h v (List.mem_cons_of_mem _ hv)).trans ?_
    cases r with
    | groupSaved | groupDeleted | templateSaved | applicationSaved | applicationDeleted | audit =>
      rfl
    | templateDeleted reference =>
      change (s.deleteTemplate reference).nextVisitId = _
      unfold Store.deleteTemplate
      split <;> rfl
    | visitSaved v => exact absurd List.mem_cons_self (h v)
    | visitDeleted id =>
      change (s.deleteVisit id).nextVisitId = _
      unfold Store.deleteVisit
      split <;> rfl

/-- A sweep keeps the properties, commit by commit. -/
theorem Kept.expired (hp : Preserved whole allowed P H) (h : Kept P H d)
    (hids : d.store.nextVisitId + 1 ≠ 0) (references : List Reference)
    (hbytes : (references.foldl discardExpired d).journal.bytes.size < 2 ^ 64) :
    Kept P H (references.foldl discardExpired d) := by
  induction references generalizing d with
  | nil => exact h
  | cons reference references ih =>
    rw [List.foldl_cons] at hbytes ⊢
    have hfirst : (d.discardExpired reference).journal.bytes.size < 2 ^ 64 := by
      have hlength := congrArg List.length
        (bytes_expire (d := d.discardExpired reference) references)
      rw [Array.length_toList, List.length_append, Array.length_toList] at hlength
      omega
    refine ih ?_ ?_ hbytes
    · by_cases hnone : d.expiryRecords reference = []
      · rw [discardExpired, hnone]
        exact h
      · exact h.commit hp h.linked hids rfl rfl (writes_expire hnone) (hp.expire d) hfirst
    · rw [discardExpired_store, nextVisitId_applyCommit (no_visit_expiryRecords d reference)]
      exact hids

/-- A journal that is read to its end has only entries that fit. -/
theorem all_legible {written : List Commit}
    (hsized : ∀ c ∈ written, (Wire.encode c).length < 2 ^ 64)
    (hbytes : d.journal.bytes.toList = Journal.entries written) (h : d.ReadToEnd) :
    written.all Journal.legible = true := by
  unfold ReadToEnd Journal.replay at h
  rw [hbytes, Journal.commits_entries_self hsized] at h
  have hleft : Journal.entries (written.dropWhile Journal.legible) = [] := by
    have hwhole := congrArg Journal.entries
      (List.takeWhile_append_dropWhile (p := Journal.legible) (l := written))
    rw [Journal.entries_append, h] at hwhole
    exact List.append_right_eq_self.mp hwhole
  have hnone : written.dropWhile Journal.legible = [] := by
    cases hrest : written.dropWhile Journal.legible with
    | nil => rfl
    | cons c rest =>
      rw [hrest, Journal.entries, List.flatMap_cons, List.append_eq_nil_iff] at hleft
      exact absurd hleft.1 (Journal.entry_ne_nil c)
  have hall := List.all_takeWhile (p := Journal.legible) (l := written)
  have hsame := List.takeWhile_append_dropWhile (p := Journal.legible) (l := written)
  rw [hnone, List.append_nil] at hsame
  rwa [hsame] at hall

theorem replay_eq {H : List Commit → Prop} {written : List Commit} (h : Written H d written) :
    d.journal.replay = written.takeWhile Journal.legible := by
  rw [Journal.replay, h.bytes, Journal.commits_entries_self h.sized]

theorem Kept.restarted (hp : Preserved whole allowed P H) (h : Kept P H d) :
    Kept P H (d.restart .none) := by
  obtain ⟨written, hwritten⟩ := h.disk
  have hstore : (d.restart .none).store = .ofCommits (written.takeWhile Journal.legible) := by
    rw [store_restart, replay_eq hwritten]
  refine ⟨?_, ?_, written, ?_, hwritten.sized, hwritten.linked, hwritten.readable, fun hall => ?_⟩
  · rw [hstore]
    exact hwritten.linked
  · rw [hstore]
    exact hp.restored hwritten.readable
  · rw [restart_bytes]
    exact hwritten.bytes
  · rw [hstore, takeWhile_of_all hall]

theorem length_entry_le {c : Commit} {written : List Commit} (h : c ∈ written) :
    (Journal.entry c).length ≤ (Journal.entries written).length :=
  (List.sublist_flatten_of_mem (List.mem_map_of_mem h)).length_le

theorem Kept.compacted (hp : Preserved whole allowed P H) (h : Kept P H d)
    (hbytes : d.compact.2.journal.bytes.size < 2 ^ 64) (hwhole : whole → d.compact.2.ReadToEnd) :
    Kept P H d.compact.2 := by
  by_cases hblocked : d.compactionBlocked = true
  · have hsame : d.compact.2 = d := by
      unfold compact
      rw [if_pos hblocked]
    rw [hsame]
    exact h
  have hcompact : d.compact.2 = { d with journal := d.journal.compact d.store.snapshot } := by
    unfold compact
    rw [if_neg hblocked]
  rw [hcompact] at hbytes hwhole ⊢
  have hentries : (d.journal.compact d.store.snapshot).bytes.toList =
      Journal.entries d.store.snapshot := List.toList_toArray
  have hsized : ∀ c ∈ d.store.snapshot, (Wire.encode c).length < 2 ^ 64 := by
    intro c hc
    have hlength := congrArg List.length hentries
    rw [Array.length_toList] at hlength
    have hentry := length_entry_le hc
    rw [Journal.length_entry] at hentry
    dsimp only at hbytes
    omega
  obtain ⟨n, hn⟩ : ∃ n, d.store.snapshot.takeWhile Journal.legible = d.store.snapshot.take n :=
    ⟨_, List.prefix_iff_eq_take.mp (List.takeWhile_prefix _)⟩
  refine ⟨h.linked, h.live, d.store.snapshot, hentries, hsized, ?_, ?_, fun _ => ?_⟩
  · rw [hn]
    rw [Store.snapshot_eq]
    exact h.linked.take_commits d.store.rows.byKey_of n
  · rw [hn]
    refine hp.compacted h.linked h.live fun hw => ?_
    have hall := all_legible hsized hentries (hwhole hw)
    rw [takeWhile_of_all hall] at hn
    rw [hn]
    exact List.length_take_le ..
  · exact Store.rows_ofCommits_snapshot h.linked.sound.keyed

theorem Kept.turned (hp : Preserved whole allowed P H) (h : Kept P H d) {a : Action}
    (hturns : a.turns = true) (hallowed : allowed d a) (hstore : (d.perform a).store = d.store)
    (hjournal : (d.perform a).journal = d.journal) : Kept P H (d.perform a) := by
  obtain ⟨written, hbytes, hsized, hlinked, hreadable, hsame⟩ := h.disk
  refine ⟨?_, ?_, written, ?_, hsized, hlinked, hp.turnedDisk hturns hallowed hreadable, ?_⟩
  · rw [hstore]
    exact h.linked
  · rw [hstore]
    exact hp.turned hturns hallowed h.live
  · rw [hjournal]
    exact hbytes
  · rw [hstore]
    exact hsame

/-- One action keeps the properties. -/
theorem Kept.perform (hp : Preserved whole allowed P H) (h : Kept P H d) (hrange : d.InRange)
    {a : Action} (hafter : (d.perform a).InRange) (hwhole : whole → (d.perform a).ReadToEnd)
    (hallowed : d.Accepts a → allowed d a) : Kept P H (d.perform a) := by
  cases hplan : d.plan? a with
  | some plan =>
    have hsame : d.perform a = (d.transact plan).2 := perform_of_plan hplan
    have hbytes := hafter.bytes
    rw [hsame] at hbytes ⊢
    cases hgranted : d.granted plan with
    | none =>
      obtain ⟨references, hrefused⟩ := transact_of_refused hgranted
      rw [hrefused]
      exact h.of_same h.linked rfl rfl rfl
    | some t =>
      have hok : allowed d a := by
        refine hallowed fun plan' hplan' => ?_
        rw [hplan] at hplan'
        rw [← Option.some.inj hplan', hgranted]
        rfl
      obtain ⟨references, hdone⟩ := transact_of_granted hgranted
      rw [hdone] at hbytes ⊢
      have hbefore : Kept P H { d with references } := h.of_same h.linked rfl rfl rfl
      cases grants_of_granted hplan hgranted with
      | nothing => exact hbefore
      | of answer writes => exact hbefore.commit hp h.linked hrange.ids rfl rfl writes hok hbytes
      | start answer writes =>
        have htaken : Kept P H { d with references, store := d.store.takeVisitId.2 } :=
          h.of_same (linked_takeVisitId h.linked hrange.ids) rfl rfl rfl
        exact htaken.commit hp h.linked hrange.ids rfl rfl writes hok hbytes
  | none =>
    cases a
    case expire => exact h.expired hp hrange.ids _ hafter.bytes
    case compact => exact h.compacted hp hafter.bytes hwhole
    case restart => exact h.restarted hp
    case setClock now => exact h.turned hp rfl (hallowed (by simp [Accepts, plan?])) rfl rfl
    case setPrisoner context => exact h.turned hp rfl (hallowed (by simp [Accepts, plan?])) rfl rfl
    case poll receiver atMost =>
      unfold Desk.perform
      dsimp only
      split
      · exact h.of_same h.linked rfl rfl rfl
      · exact h
    case subscribe => exact h.of_same h.linked rfl rfl rfl
    case unsubscribe => exact h.of_same h.linked rfl rfl rfl
    case pruneFeed => exact h.of_same h.linked rfl rfl rfl
    all_goals cases hplan

/-! ## Runs -/

theorem store_openOn_nil (policy : BookingPolicy) (now : Moment)
    (prisoners : Std.ExtTreeMap String PrisonerContext) (references : ReferenceSource) :
    (openOn #[] policy now prisoners references).store = Store.empty := by
  change Store.ofCommits (Journal.commits []) = Store.empty
  rw [Journal.commits_nil]
  rfl

theorem kept_openOn (hp : Preserved whole allowed P H) (policy : BookingPolicy) (now : Moment)
    (prisoners : Std.ExtTreeMap String PrisonerContext) (references : ReferenceSource) :
    Kept P H (openOn #[] policy now prisoners references) := by
  have hstore := store_openOn_nil policy now prisoners references
  have hnil := hp.empty policy now prisoners
  refine ⟨?_, ?_, [], rfl, by simp, Store.linked_empty, hnil, fun _ => ?_⟩
  · rw [hstore]
    exact Store.linked_empty
  · rw [hstore]
    exact hp.restored hnil
  · rw [hstore]
    rfl

/-- Every desk of a run has the properties that the first one has. -/
theorem Kept.run (hp : Preserved whole allowed P H) (h : Kept P H d) {actions : List Action}
    (hrange : d.Throughout InRange actions) (hwhole : whole → d.Throughout ReadToEnd actions)
    (hallowed : d.Along (fun d a => d.Accepts a → allowed d a) actions) :
    d.Throughout (Kept P H) actions := by
  induction actions generalizing d with
  | nil => exact h
  | cons a actions ih =>
    refine ⟨h, ih ?_ hrange.2 (fun hw => (hwhole hw).2) hallowed.2⟩
    exact h.perform hp hrange.1 hrange.2.head (fun hw => (hwhole hw).2.head) hallowed.1

/-- Along a run from an empty journal, every desk has what all actions keep. -/
theorem kept_throughout (hp : Preserved whole (fun _ _ => True) P H) {policy : BookingPolicy}
    {now : Moment} {prisoners : Std.ExtTreeMap String PrisonerContext}
    {references : ReferenceSource} {actions : List Action}
    (hrange : (openOn #[] policy now prisoners references).Throughout InRange actions)
    (hwhole : whole → (openOn #[] policy now prisoners references).Throughout ReadToEnd actions) :
    (openOn #[] policy now prisoners references).Throughout (Kept P H) actions :=
  (kept_openOn hp policy now prisoners references).run hp hrange hwhole
    (along_of_forall (fun _ _ _ => trivial) _ actions)

theorem preserved_true : Preserved False (fun _ _ => True) (fun _ _ => True) (fun _ _ => True) := by
  constructor <;> intros <;> trivial

/-- The stores of a run from an empty journal have their links. -/
theorem linked_throughout {policy : BookingPolicy} {now : Moment}
    {prisoners : Std.ExtTreeMap String PrisonerContext} {references : ReferenceSource}
    {actions : List Action}
    (hrange : (openOn #[] policy now prisoners references).Throughout InRange actions) :
    (openOn #[] policy now prisoners references).Throughout (fun d => d.store.Linked) actions :=
  (kept_throughout preserved_true hrange False.elim).imp fun _ h => h.linked

/-- A property of the rows alone is one of the journal too: it holds of the rows that a reader
builds. -/
theorem preserved_of_rows (hexpire : ∀ d, allowed d .expire)
    (hempty : ∀ around, P around Store.empty.rows)
    (hwrites : ∀ {d a c}, d.store.Linked → P d.around d.store.rows → allowed d a → d.Writes a c →
      P d.around (d.store.rows.applyCommit c))
    (hfirst : ∀ {t around n}, Rows.Keyed t → P around t → (whole → 5 ≤ n) → P around (t.first n))
    (hturned : ∀ {d a t}, a.turns = true → allowed d a → P d.around t → P (d.perform a).around t) :
    Preserved whole allowed P (fun around commits => P around (Store.ofCommits commits).rows) where
  expire := hexpire
  empty := fun _ _ _ => hempty _
  restored := fun h => h
  writes := hwrites
  appended := by
    intro d a c commits h hlive hallowed hw hrows _
    rw [show Store.ofCommits (commits ++ [c]) = (Store.ofCommits commits).applyCommit c from
      Store.ofCommits_append commits [c], Store.rows_applyCommit, hrows]
    exact hwrites h hlive hallowed hw
  compacted := by
    intro s around n h hlive hn
    rw [Store.snapshot_eq] at hn ⊢
    obtain ⟨m, hm, -, hrows⟩ := Store.rows_ofCommits_take s.rows.byKey_of h.sound.keyed n
    by_cases hall : s.rows.byKey.commits.length ≤ n
    · rw [List.take_of_length_le hall,
        Store.rows_ofCommits_commits s.rows.byKey_of h.sound.keyed]
      exact hlive
    · rw [hrows]
      exact hfirst h.sound.keyed hlive fun hwhole => absurd (hn hwhole) hall
  turned := hturned
  turnedDisk := hturned

/-! ## Runs that write little -/

/-- The action appends at most so many bytes, compacts nothing and leaves visit ids. -/
def AppendsAtMost (n : Nat) (d : Desk) (a : Action) : Prop :=
  a ≠ .compact ∧ (Journal.entries (d.commitsOf a)).length ≤ n ∧
    (d.perform a).store.nextVisitId + 1 ≠ 0

theorem throughout_inRange {n m : Nat} {actions : List Action} (hd : d.journal.bytes.size ≤ m)
    (hids : d.store.nextVisitId + 1 ≠ 0) (h : d.Along (AppendsAtMost n) actions)
    (hsmall : m + n * actions.length < 2 ^ 64) : d.Throughout InRange actions := by
  induction actions generalizing d m with
  | nil => exact ⟨by omega, hids⟩
  | cons a actions ih =>
    obtain ⟨⟨hcompact, hlength, hnext⟩, hrest⟩ := h
    rw [List.length_cons, Nat.mul_succ] at hsmall
    have hsize := congrArg List.length (bytes_perform (d := d) hcompact)
    rw [List.length_append, Array.length_toList, Array.length_toList] at hsize
    exact ⟨⟨by omega, hids⟩, ih (m := m + n) (by omega) hnext hrest (by omega)⟩

theorem legible_of_length_entry {c : Commit} (h : (Journal.entry c).length < 2 ^ 32) :
    Journal.legible c = true := by
  rw [Journal.length_entry] at h
  simp only [Journal.legible, decide_eq_true_eq]
  omega

theorem replay_of_bytes {written : List Commit}
    (hbytes : d.journal.bytes.toList = Journal.entries written)
    (h : ∀ c ∈ written, Journal.legible c = true) : d.journal.replay = written := by
  have hfound := Journal.commits_entries_append h []
  rw [List.append_nil, Journal.commits_nil, List.append_nil] at hfound
  rw [Journal.replay, hbytes, hfound]

theorem readToEnd_of_bytes {written : List Commit}
    (hbytes : d.journal.bytes.toList = Journal.entries written)
    (h : ∀ c ∈ written, Journal.legible c = true) : d.ReadToEnd := by
  rw [ReadToEnd, replay_of_bytes hbytes h, hbytes]

theorem throughout_readToEnd {n : Nat} (written : List Commit) {actions : List Action}
    (hbytes : d.journal.bytes.toList = Journal.entries written)
    (hwritten : ∀ c ∈ written, Journal.legible c = true) (h : d.Along (AppendsAtMost n) actions)
    (hsmall : n < 2 ^ 32) : d.Throughout ReadToEnd actions := by
  induction actions generalizing d written with
  | nil => exact readToEnd_of_bytes hbytes hwritten
  | cons a actions ih =>
    obtain ⟨⟨hcompact, hlength, -⟩, hrest⟩ := h
    refine ⟨readToEnd_of_bytes hbytes hwritten,
      ih (written ++ d.commitsOf a) ?_ (fun c hc => ?_) hrest⟩
    · rw [bytes_perform hcompact, hbytes, Journal.entries_append]
    · rcases List.mem_append.mp hc with hc | hc
      · exact hwritten c hc
      · exact legible_of_length_entry
          (Nat.lt_of_le_of_lt (Nat.le_trans (length_entry_le hc) hlength) hsmall)

end Desk

/-! ## A small run -/

namespace Sample

def time (hour : Nat) (h : hour < 24) : TimeOfDay :=
  ⟨hour * 3600, 0, by simp only [secondsPerDay]; omega, .inl (by decide)⟩

def friday : Date := ⟨20000, by decide, by decide⟩

def monday : Date := ⟨20003, by decide, by decide⟩

/-- References that are single letters. -/
def letters : ReferenceSource := ⟨fun n => String.singleton (Char.ofNat ('a'.toNat + n)), 0⟩

def policy : BookingPolicy := ⟨2, 28, 1200⟩

/-- A desk on an empty journal, on Friday at noon. -/
def desk : Desk := .openOn #[] policy ⟨friday, time 12 (by decide)⟩ ∅ letters

def mondays : TemplateDraft where
  name := "Monday afternoons"
  prisonCode := "HEI"
  visitRoom := "main"
  dayOfWeek := .monday
  startTime := time 13 (by decide)
  endTime := time 14 (by decide)
  validFrom := friday
  validTo := none
  weeklyFrequency := 1
  capacity := ⟨2, 1⟩
  locationGroups := []
  categoryGroups := []
  incentiveGroups := []

def reservation : ReserveRequest where
  prisonerId := "A0001AA"
  slot := ⟨"a", monday, .openVisit⟩
  contact := none
  visitors := [⟨1, true⟩]
  support := []
  bookingReference := none
  actionedBy := "clerk"

/-- Application c for booking b holds a slot of template a. -/
def actions : List Action :=
  [.createTemplate mondays, .setPrisoner ⟨"A0001AA", "HEI", none, none, none⟩, .reserve reservation]

theorem along_actions : desk.Along (Desk.AppendsAtMost 1000) actions := by
  refine ⟨⟨nofun, ?_, ?_⟩, ⟨nofun, ?_, ?_⟩, ⟨nofun, ?_, ?_⟩, trivial⟩
  all_goals decide +kernel

theorem inRange_actions : desk.Throughout Desk.InRange actions :=
  Desk.throughout_inRange (m := 0) (by decide) (by decide +kernel) along_actions (by decide)

end Sample

end PrisonVisits
