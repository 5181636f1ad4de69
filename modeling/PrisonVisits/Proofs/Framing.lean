import PrisonVisits.Journal.Entry
import PrisonVisits.Proofs.RecordLaws

/-! # What a reader finds in a journal

The entries of a journal are found again in order, up to the first commit whose length does not fit
the four bytes in front of it: its entry says less than what follows, the part of the payload it
names is no commit, and nothing behind it is read. What a reader finds does not shrink when bytes
are added at the end. A journal that is cut off gives the commits that are whole. -/

namespace PrisonVisits.Journal

open Wire

/-- The commit's length fits the field in front of its payload. -/
def legible (commit : Commit) : Bool := (encode commit).length < 2 ^ 32

theorem commits_eq (bytes : List UInt8) :
    commits bytes = match readEntry.run bytes with
      | none => []
      | some (commit, rest) => commit :: commits rest := by
  rw [commits]
  split <;> simp_all

theorem commits_of_none {bytes : List UInt8} (h : readEntry.run bytes = none) :
    commits bytes = [] := by
  rw [commits_eq, h]

theorem commits_of_some {bytes rest : List UInt8} {commit : Commit}
    (h : readEntry.run bytes = some (commit, rest)) : commits bytes = commit :: commits rest := by
  rw [commits_eq, h]

theorem commits_nil : commits [] = [] := commits_of_none rfl

/-! ## One entry -/

theorem steady_readPayload : Steady readPayload :=
  .field fun _ => (Steady.take _).bind fun _ => .field fun _ => .require _

theorem steady_readEntry : Steady readEntry :=
  steady_readPayload.bind fun _ => .require _

theorem run_encode {α : Type} [Wire α] [LawfulWire α] {a : α} (h : (encode a).length < 2 ^ 64) :
    (decode : Decoder α).run (encode a) = some (a, []) := by
  have hread := LawfulWire.reads a h []
  rwa [List.append_nil] at hread

theorem decode?_encode {α : Type} [Wire α] [LawfulWire α] {a : α}
    (h : (encode a).length < 2 ^ 64) : decode? (encode a) = some a := by
  simp [decode?, run_encode h]

/-- Bytes that stop inside a value do not hold it, nor any other. -/
theorem decode?_take {α : Type} [Wire α] [LawfulWire α] {a : α} (h : (encode a).length < 2 ^ 64)
    {n : Nat} (hn : n < (encode a).length) : decode? ((encode a).take n) = (none : Option α) := by
  simp [decode?, LawfulWire.steady.run_take (run_encode h) hn]

theorem reads_readPayload {payload : List UInt8} (h : payload.length < 2 ^ 32) :
    Reads readPayload (encode (UInt32.ofNat payload.length) ++ payload ++
      encode (Checksum.crc32 payload)) payload := by
  rw [List.append_assoc]
  refine .field _ ((Reads.take ?_).bind (.map (LawfulWire.reads _) (.require ?_)))
  · rw [UInt32.toNat_ofNat_of_lt' h]
  · rw [if_pos rfl]

theorem length_entry (commit : Commit) : (entry commit).length = (encode commit).length + 8 := by
  simp only [entry, List.length_append, length_encode_word]
  omega

theorem entry_ne_nil (commit : Commit) : entry commit ≠ [] := by
  intro h
  have := length_entry commit
  simp [h] at this

/-- A legible entry is read whole, whatever follows it. -/
theorem readEntry_entry {commit : Commit} (h : legible commit = true) (rest : List UInt8) :
    readEntry.run (entry commit ++ rest) = some (commit, rest) := by
  have hfits : (encode commit).length < 2 ^ 32 := by simpa [legible] using h
  have hread : Reads readEntry (entry commit) commit :=
    (reads_readPayload hfits).map (.require (decode?_encode (by omega)))
  refine hread ?_ rest
  rw [length_entry]
  omega

/-- The reader of an entry goes by the four bytes at its front. -/
theorem readEntry_eq_some {bytes rest : List UInt8} {commit : Commit}
    (h : readEntry.run bytes = some (commit, rest)) :
    ∃ size, (readLittleEndian 4).run bytes = some (size, bytes.drop 4) ∧ size + 8 ≤ bytes.length ∧
      decode? ((bytes.drop 4).take size) = some commit := by
  simp only [readEntry, readPayload, StateT.run_bind, Option.bind_eq_bind,
    Option.bind_eq_some_iff] at h
  obtain ⟨⟨payload, after⟩, ⟨⟨size, behind⟩, hsize, ⟨front, left⟩, htake, ⟨checksum, left'⟩, hsum,
    hcheck⟩, hcommit⟩ := h
  obtain ⟨hread, hword, rfl⟩ := decode_UInt32_eq_some hsize
  obtain ⟨hpayload, rfl, rfl⟩ := take_eq_some htake
  obtain ⟨-, hchecksum, -⟩ := decode_UInt32_eq_some hsum
  have hsame := require_eq_some hcheck
  rw [Option.ite_none_right_eq_some] at hsame
  refine ⟨size.toNat, hread, ?_, ?_⟩
  · simp only [List.length_drop] at hpayload hchecksum
    omega
  · cases hsame.2
    exact require_eq_some hcommit

/-- The length at the front of an entry, whatever stands behind it. -/
theorem readLittleEndian_take_entry (commit : Commit) {k : Nat} (hk : 4 ≤ k) (rest : List UInt8) :
    (readLittleEndian 4).run ((entry commit).take k ++ rest) =
      some ((encode commit).length % 2 ^ 32,
        (encode commit ++ encode (Checksum.crc32 (encode commit))).take (k - 4) ++ rest) := by
  have hvalue : (UInt32.ofNat (encode commit).length).toNat % 256 ^ 4 =
      (encode commit).length % 2 ^ 32 := by
    rw [UInt32.toNat_ofNat']
    exact Nat.mod_mod _ _
  rw [entry, List.append_assoc, List.take_append, length_encode_word,
    List.take_of_length_le (by rw [length_encode_word]; exact hk), List.append_assoc, ← hvalue]
  exact Reads.readLittleEndian 4 _ (by rw [length_littleEndian]; decide) _

/-- An entry that says less than its length stops every reader: what it names is no whole commit. -/
theorem readEntry_overlong {commit : Commit} (h : legible commit = false)
    (h64 : (encode commit).length < 2 ^ 64) (rest : List UInt8) :
    readEntry.run (entry commit ++ rest) = none := by
  have hlong : 2 ^ 32 ≤ (encode commit).length := by simpa [legible] using h
  have hshort : (encode commit).length % 2 ^ 32 < (encode commit).length :=
    Nat.lt_of_lt_of_le (Nat.mod_lt _ (by decide)) hlong
  cases hrun : readEntry.run (entry commit ++ rest) with
  | none => rfl
  | some found =>
    obtain ⟨size, hread, -, hcommit⟩ := readEntry_eq_some hrun
    have hfield := readLittleEndian_take_entry commit (k := (entry commit).length)
      (by rw [length_entry]; omega) rest
    rw [List.take_length] at hfield
    obtain ⟨rfl, hrest⟩ := Prod.mk.inj (Option.some.inj (hfield.symm.trans hread))
    rw [length_entry, Nat.add_sub_assoc (by decide), List.take_append, List.append_assoc,
      List.take_of_length_le (by omega)] at hrest
    rw [← hrest, List.take_append_of_le_length (by omega), decode?_take h64 hshort] at hcommit
    cases hcommit

/-- An entry that has lost its end cannot be read. -/
theorem readEntry_take_entry {commit : Commit} (h : legible commit = true) {n : Nat}
    (hn : n < (entry commit).length) : readEntry.run ((entry commit).take n) = none := by
  have hread := readEntry_entry h []
  rw [List.append_nil] at hread
  exact steady_readEntry.run_take hread hn

/-! ## Many entries -/

theorem entries_append (earlier later : List Commit) :
    entries (earlier ++ later) = entries earlier ++ entries later := by
  simp [entries]

theorem commits_entries_append {written : List Commit} (h : ∀ c ∈ written, legible c = true)
    (rest : List UInt8) : commits (entries written ++ rest) = written ++ commits rest := by
  induction written with
  | nil => rfl
  | cons c written ih =>
    obtain ⟨hc, hwritten⟩ := List.forall_mem_cons.mp h
    rw [entries, List.flatMap_cons, ← entries, List.append_assoc,
      commits_of_some (readEntry_entry hc _), ih hwritten]
    rfl

/-- A journal gives its commits back, up to the first that does not fit its length field. -/
theorem commits_entries {written : List Commit} (h : ∀ c ∈ written, (encode c).length < 2 ^ 64)
    (rest : List UInt8) : commits (entries written ++ rest) =
      written.takeWhile legible ++ if written.all legible then commits rest else [] := by
  induction written with
  | nil => rfl
  | cons c written ih =>
    obtain ⟨hc, hwritten⟩ := List.forall_mem_cons.mp h
    rw [entries, List.flatMap_cons, ← entries, List.append_assoc]
    cases hl : legible c with
    | true =>
      rw [commits_of_some (readEntry_entry hl _), ih hwritten]
      simp [hl]
    | false =>
      rw [commits_of_none (readEntry_overlong hl hc _)]
      simp [hl]

theorem commits_entries_self {written : List Commit}
    (h : ∀ c ∈ written, (encode c).length < 2 ^ 64) :
    commits (entries written) = written.takeWhile legible := by
  have hread := commits_entries h []
  rwa [List.append_nil, commits_nil, ite_self, List.append_nil] at hread

/-- Where a cut falls: behind some whole entries, and perhaps inside the next one. -/
theorem exists_cut (written : List Commit) (n : Nat) :
    ∃ whole lost torn, written = whole ++ lost ∧ (entries written).take n = entries whole ++ torn ∧
      (torn = [] ∨ ∃ c ∈ lost.head?, ∃ k < (entry c).length, torn = (entry c).take k) := by
  induction written generalizing n with
  | nil => exact ⟨[], [], [], rfl, by simp [entries], .inl rfl⟩
  | cons c written ih =>
    have hcons : entries (c :: written) = entry c ++ entries written := by simp [entries]
    rw [hcons]
    by_cases hn : n < (entry c).length
    · refine ⟨[], c :: written, (entry c).take n, rfl, ?_, .inr ⟨c, rfl, n, hn, rfl⟩⟩
      rw [List.take_append_of_le_length (Nat.le_of_lt hn)]
      rfl
    · obtain ⟨whole, lost, torn, hsplit, htake, htorn⟩ := ih (n - (entry c).length)
      refine ⟨c :: whole, lost, torn, by rw [hsplit]; rfl, ?_, htorn⟩
      rw [List.take_append, List.take_of_length_le (by omega), htake]
      simp [entries]

theorem length_entries_append (earlier later : List Commit) :
    (entries (earlier ++ later)).length = (entries earlier).length + (entries later).length := by
  rw [entries_append, List.length_append]

/-- A journal that is cut off gives the commits whose entries end in front of the cut. -/
theorem commits_take_entries {written : List Commit} (h : ∀ c ∈ written, legible c = true)
    (n : Nat) :
    ∃ whole lost, written = whole ++ lost ∧ (entries whole).length ≤ n ∧
      (∀ c ∈ lost.head?, n < (entries (whole ++ [c])).length) ∧
      commits ((entries written).take n) = whole := by
  obtain ⟨whole, lost, torn, rfl, htake, htorn⟩ := exists_cut written n
  obtain ⟨hwhole, hlost⟩ := List.forall_mem_append.mp h
  have hnone : commits torn = [] := by
    rcases htorn with rfl | ⟨c, hc, k, hk, rfl⟩
    · exact commits_nil
    · exact commits_of_none (readEntry_take_entry (hlost c (List.mem_of_mem_head? hc)) hk)
  have hlength := congrArg List.length htake
  rw [List.length_take, List.length_append, length_entries_append] at hlength
  refine ⟨whole, lost, rfl, by omega, fun c hc => ?_, ?_⟩
  · -- what is left of the next entry is shorter than the entry, so the cut falls inside of it
    have hshort : torn.length < (entry c).length := by
      rcases htorn with rfl | ⟨next, hnext, k, hk, rfl⟩
      · exact List.length_pos_iff.mpr (entry_ne_nil c)
      · obtain rfl := Option.some.inj (hnext.symm.trans hc)
        rwa [List.length_take_of_le (Nat.le_of_lt hk)]
    obtain ⟨more, rfl⟩ := List.head?_eq_some_iff.mp hc
    have hone : (entries [c]).length = (entry c).length := by simp [entries]
    rw [← List.singleton_append, length_entries_append] at hlength
    rw [length_entries_append]
    omega
  · rw [htake, commits_entries_append hwhole, hnone, List.append_nil]

/-- What is found in any bytes is found again, and first, when more bytes follow them. -/
theorem commits_prefix (bytes more : List UInt8) : commits bytes <+: commits (bytes ++ more) := by
  induction bytes using commits.induct with
  | case1 bytes h =>
    rw [commits_of_none h]
    exact List.nil_prefix
  | case2 bytes commit rest h ih =>
    rw [commits_of_some h, commits_of_some (steady_readEntry _ _ _ more h)]
    exact (List.prefix_cons_inj commit).mpr ih

/-- No bytes keep the reader going for ever: it can go from bytes to what an entry leaves of them
only so often. -/
theorem wellFounded_readEntry :
    WellFounded fun rest bytes => ∃ commit, readEntry.run bytes = some (commit, rest) :=
  Subrelation.wf (fun ⟨_, h⟩ => shortens_readEntry _ _ _ h) (measure List.length).wf

/-- Whole entries are read back and reading goes on behind them, a cut loses the commits whose
entries it hits or lies in front of and no others, bytes at the end take nothing away from what is
found in any bytes, and reading comes to an end on all of them. -/
theorem commits_framed (written : List Commit)
    (hsize : ∀ c ∈ written, (encode c).length < 2 ^ 32) (cut : Nat) (bytes more : List UInt8) :
    commits (entries written ++ more) = written ++ commits more ∧
    (∃ whole lost, written = whole ++ lost ∧ (entries whole).length ≤ cut ∧
      (∀ c ∈ lost.head?, cut < (entries (whole ++ [c])).length) ∧
      commits ((entries written).take cut) = whole) ∧
    commits bytes <+: commits (bytes ++ more) ∧
    WellFounded fun rest bytes => ∃ commit, readEntry.run bytes = some (commit, rest) := by
  have hlegible : ∀ c ∈ written, legible c = true := fun c hc => decide_eq_true (hsize c hc)
  exact ⟨commits_entries_append hlegible more, commits_take_entries hlegible cut,
    commits_prefix bytes more, wellFounded_readEntry⟩

theorem commits_framed_sample :
    let written : List Commit := [[.visitDeleted 7], [.groupDeleted "a", .visitDeleted 8]]
    (∀ c ∈ written, (encode c).length < 2 ^ 32) ∧
    commits (entries written ++ [1, 2]) = written ∧
    commits ((entries written).take 60) = [[.visitDeleted 7]] := by
  intro written
  have hsize : ∀ c ∈ written, (encode c).length < 2 ^ 32 := by decide +kernel
  obtain ⟨hback, ⟨whole, lost, hsplit, hfits, hcut, hread⟩, -, -⟩ :=
    commits_framed written hsize 60 [1, 2] [1, 2]
  refine ⟨hsize, by rw [hback, commits_of_none (by decide)]; rfl, ?_⟩
  match whole, hsplit with
  | [], hsplit =>
    have hinside := hcut [.visitDeleted 7] (by rw [← show written = lost from hsplit]; rfl)
    exact absurd hinside (by decide +kernel)
  | [_], hsplit => rw [hread, ← (List.cons.inj hsplit).1]
  | first :: second :: more, hsplit =>
    simp only [written, List.cons_append, List.cons.injEq, List.nil_eq,
      List.append_eq_nil_iff] at hsplit
    obtain ⟨rfl, rfl, rfl, rfl⟩ := hsplit
    exact absurd hfits (by decide +kernel)

end PrisonVisits.Journal
