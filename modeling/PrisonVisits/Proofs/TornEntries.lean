import PrisonVisits.Proofs.Framing

/-! # What is appended behind a torn entry

The reader takes the length of a torn entry at its word and looks for the rest of the payload in
whatever stands behind it. If that is too little, nothing is read any more. If it is enough, what
the payload says is settled by the bytes that make it full, and entries that begin with the same
bytes may be those of different commits. So there is no tear behind which every commit is found
again. -/

namespace PrisonVisits.Journal

open Wire

/-! ## Small commits -/

/-- A commit that saves an empty group. -/
def probe (reference : Reference) (prisonCode name : String) : Commit :=
  [.groupSaved ⟨reference, prisonCode, name, .incentives []⟩]

theorem length_encode_string (s : String) : (encode s).length = 8 + s.utf8ByteSize := by
  change (encode (UInt64.ofNat s.utf8ByteSize) ++ s.toUTF8.data.toList).length = _
  rw [List.length_append, show (encode (UInt64.ofNat _)).length = 8 from length_littleEndian 8 _]
  simp [← String.size_toByteArray]

/-- The part of a probe's payload in front of the name. -/
def probeHead (reference : Reference) (prisonCode : String) : List UInt8 :=
  encode (UInt64.ofNat 1) ++ (variant 0 ++ (encode reference ++ encode prisonCode))

theorem length_probeHead (reference : Reference) (prisonCode : String) :
    (probeHead reference prisonCode).length =
      28 + reference.utf8ByteSize + prisonCode.utf8ByteSize := by
  have hlist : (encode (UInt64.ofNat 1)).length = 8 := length_littleEndian 8 _
  have hvariant : (variant 0).length = 4 := length_littleEndian 4 _
  simp only [probeHead, List.length_append, length_encode_string, hlist, hvariant]
  omega

theorem encode_probe (reference : Reference) (prisonCode name : String) :
    encode (probe reference prisonCode name) =
      probeHead reference prisonCode ++ (encode name ++ encode (GroupEntries.incentives [])) := by
  change encode (UInt64.ofNat 1) ++ ((variant 0 ++ (encode reference ++ encode prisonCode ++
    encode name ++ encode (GroupEntries.incentives []))) ++ []) = _
  simp only [probeHead, List.append_assoc, List.append_nil]

theorem length_encode_probe (reference : Reference) (prisonCode name : String) :
    (encode (probe reference prisonCode name)).length =
      48 + reference.utf8ByteSize + prisonCode.utf8ByteSize + name.utf8ByteSize := by
  have hentries : (encode (GroupEntries.incentives [])).length = 12 := by decide
  rw [encode_probe, List.length_append, List.length_append, length_probeHead, length_encode_string,
    hentries]
  omega

theorem legible_probe {reference : Reference} {prisonCode name : String}
    (hlength : reference.utf8ByteSize = 64) (hcode : prisonCode ∈ ["", reference])
    (hname : name ∈ ["a", "b"]) : legible (probe reference prisonCode name) = true := by
  have hcode : prisonCode.utf8ByteSize ≤ 64 := by
    simp only [List.mem_cons, List.not_mem_nil, or_false] at hcode
    rcases hcode with rfl | rfl
    · decide
    · omega
  have hname : name.utf8ByteSize = 1 := by
    simp only [List.mem_cons, List.not_mem_nil, or_false] at hname
    rcases hname with rfl | rfl <;> rfl
  rw [legible, length_encode_probe, decide_eq_true_eq]
  omega

/-- The entry of a probe does not tell its name before it comes to it. -/
theorem take_entry_probe {reference : Reference} {prisonCode name other : String} {n : Nat}
    (hname : name.utf8ByteSize = other.utf8ByteSize)
    (hn : n ≤ 32 + reference.utf8ByteSize + prisonCode.utf8ByteSize) :
    (entry (probe reference prisonCode name)).take n =
      (entry (probe reference prisonCode other)).take n := by
  have hsize : (encode (probe reference prisonCode name)).length =
      (encode (probe reference prisonCode other)).length := by
    rw [length_encode_probe, length_encode_probe, hname]
  have hhead : ∀ (size : UInt32),
      (encode size ++ probeHead reference prisonCode).length =
        32 + reference.utf8ByteSize + prisonCode.utf8ByteSize := by
    intro size
    rw [List.length_append, length_probeHead, length_encode_word]
    omega
  have htake : ∀ text, (entry (probe reference prisonCode text)).take n =
      (encode (UInt32.ofNat (encode (probe reference prisonCode text)).length) ++
        probeHead reference prisonCode).take n := by
    intro text
    rw [entry]
    generalize UInt32.ofNat (encode (probe reference prisonCode text)).length = size
    rw [encode_probe, ← List.append_assoc, List.append_assoc _ _ (encode (Checksum.crc32 _)),
      List.take_append_of_le_length (by rw [hhead]; exact hn)]
  rw [htake, htake, hsize]

/-! ## Tears -/

/-- A tear inside the length: the first byte behind it makes the length far too large. -/
theorem readEntry_torn_length {torn : List UInt8} (hnonempty : torn ≠ []) (hshort : torn.length < 4)
    {b : UInt8} (hb : b ≠ 0) {bytes : List UInt8} (hbytes : torn.length + bytes.length < 256) :
    readEntry.run (torn ++ b :: bytes) = none := by
  cases hrun : readEntry.run (torn ++ b :: bytes) with
  | none => rfl
  | some found =>
    obtain ⟨size, hread, hfits, -⟩ := readEntry_eq_some hrun
    have hlarge : 256 ≤ size := by
      calc 256 = 256 ^ 1 * 1 := rfl
        _ ≤ 256 ^ torn.length * b.toNat := Nat.mul_le_mul
          (Nat.pow_le_pow_right (by decide) (List.length_pos_iff.mpr hnonempty))
          (Nat.pos_of_ne_zero fun h => hb (UInt8.toNat_inj.mp h))
        _ ≤ size := le_readLittleEndian hshort hread
    rw [List.length_append, List.length_cons] at hfits
    omega

/-- A tear behind the length: what is read is settled by the bytes that make the payload full. -/
theorem readEntry_torn_payload {commit found : Commit} (h : legible commit = true) {k : Nat}
    (hk : 4 ≤ k) {bytes rest : List UInt8}
    (hread : readEntry.run ((entry commit).take k ++ bytes) = some (found, rest)) :
    (encode commit).length + 8 ≤ ((entry commit).take k ++ bytes).length ∧
      decode? ((((entry commit).take k ++ bytes).take ((encode commit).length + 4)).drop 4) =
        some found := by
  obtain ⟨size, hsize, hfits, hfound⟩ := readEntry_eq_some hread
  have hfield := readLittleEndian_take_entry commit hk bytes
  have hlength : (encode commit).length < 2 ^ 32 := by simpa [legible] using h
  rw [Nat.mod_eq_of_lt hlength] at hfield
  obtain rfl := (Prod.mk.inj (Option.some.inj (hfield.symm.trans hsize))).1
  refine ⟨hfits, ?_⟩
  rw [List.drop_take]
  exact hfound

theorem entry_small_probe {reference : Reference} (hlength : reference.utf8ByteSize = 64) :
    ∃ more, entry (probe reference "" "a") = 113 :: more ∧ more.length = 120 := by
  have hsize : (encode (probe reference "" "a")).length = 113 := by
    rw [length_encode_probe, hlength]
    rfl
  refine ⟨(entry (probe reference "" "a")).tail, ?_, ?_⟩
  · rw [entry, hsize]
    rfl
  · rw [List.length_tail, length_entry, hsize]

/-- Behind a tear there is a small commit that is not found again. -/
theorem exists_lost {commit : Commit} (h : legible commit = true) {k : Nat} (hpos : 0 < k)
    (hk : k < (entry commit).length) {reference : Reference}
    (hlength : reference.utf8ByteSize = 64) :
    ∃ prisonCode ∈ ["", reference], ∃ name ∈ ["a", "b"], commits ((entry commit).take k ++
      entry (probe reference prisonCode name)) ≠ [probe reference prisonCode name] := by
  refine Classical.byContradiction fun hnone => ?_
  have hread : ∀ prisonCode ∈ ["", reference], ∀ name ∈ ["a", "b"], ∃ rest,
      readEntry.run ((entry commit).take k ++ entry (probe reference prisonCode name)) =
        some (probe reference prisonCode name, rest) := by
    intro prisonCode hcode name hname
    have hfound := Classical.not_not.mp fun hne => hnone ⟨prisonCode, hcode, name, hname, hne⟩
    rw [commits_eq] at hfound
    split at hfound
    · cases hfound
    · next c rest hrun =>
      cases (List.cons.inj hfound).1
      exact ⟨rest, hrun⟩
  have htorn : ((entry commit).take k).length = k := List.length_take_of_le (Nat.le_of_lt hk)
  obtain ⟨more, hsmall, hmore⟩ := entry_small_probe hlength
  obtain ⟨rest, hrun⟩ := hread "" (by simp) "a" (by simp)
  rw [hsmall] at hrun
  by_cases hk4 : k < 4
  · rw [readEntry_torn_length (List.ne_nil_of_length_pos (by omega)) (by omega) (by decide)
      (by omega)] at hrun
    cases hrun
  · have hfits := (readEntry_torn_payload h (by omega) hrun).1
    rw [List.length_append, List.length_cons, htorn, hmore] at hfits
    obtain ⟨restA, hrunA⟩ := hread reference (by simp) "a" (by simp)
    obtain ⟨restB, hrunB⟩ := hread reference (by simp) "b" (by simp)
    have hfoundA := (readEntry_torn_payload h (by omega) hrunA).2
    have hfoundB := (readEntry_torn_payload h (by omega) hrunB).2
    have hsame : (entry (probe reference reference "a")).take ((encode commit).length + 4 - k) =
        (entry (probe reference reference "b")).take ((encode commit).length + 4 - k) :=
      take_entry_probe rfl (by omega)
    rw [List.take_append, htorn, hsame] at hfoundA
    rw [List.take_append, htorn] at hfoundB
    simpa [probe] using hfoundA.symm.trans hfoundB

end PrisonVisits.Journal
