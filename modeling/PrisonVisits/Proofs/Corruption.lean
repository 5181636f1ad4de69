import PrisonVisits.Journal.File
import PrisonVisits.Proofs.Framing

/-! # A changed byte stops the reader

The register of the checksum can be run backwards: the polynomial's highest bit is set, so the
highest bit of a shifted register says which bit has left at its low end. Neither a shift nor a byte
taken in brings two registers together, so payloads that differ in one byte have different checksums
and an entry with one wrong byte in its payload or checksum is no entry of anything. -/

namespace PrisonVisits

namespace Checksum

theorem low_bit_iff (register : UInt32) :
    register &&& 1 = 1 ↔ register.toBitVec.getLsbD 0 = true := by
  rw [← UInt32.toBitVec_inj, UInt32.toBitVec_and, UInt32.toBitVec_one,
    BitVec.and_one_eq_setWidth_ofBool_getLsbD]
  cases register.toBitVec.getLsbD 0 <;> decide

theorem getLsbD_shift (register : UInt32) (i : Nat) :
    (shift register).toBitVec.getLsbD i = (register.toBitVec.getLsbD (i + 1) ^^
      (register.toBitVec.getLsbD 0 && polynomial.toBitVec.getLsbD i)) := by
  have hmoved : (register >>> 1).toBitVec.getLsbD i = register.toBitVec.getLsbD (i + 1) := by
    rw [UInt32.toBitVec_shiftRight, show (UInt32.toBitVec 1 % 32) = 1#32 from rfl,
      BitVec.ushiftRight_eq', BitVec.getLsbD_ushiftRight, Nat.add_comm]
    rfl
  unfold shift
  split
  next h =>
    rw [low_bit_iff] at h
    rw [UInt32.toBitVec_xor, BitVec.getLsbD_xor, hmoved, h, Bool.true_and]
  next h =>
    rw [low_bit_iff, Bool.not_eq_true] at h
    rw [hmoved, h, Bool.false_and, Bool.xor_false]

theorem shift_injective : Function.Injective shift := by
  intro a b h
  have hbit : ∀ i, (shift a).toBitVec.getLsbD i = (shift b).toBitVec.getLsbD i := by simp [h]
  simp only [getLsbD_shift] at hbit
  -- nothing is moved into the highest bit, so it comes from the polynomial or is not set
  have hlow : a.toBitVec.getLsbD 0 = b.toBitVec.getLsbD 0 := by
    have htop := hbit 31
    rwa [BitVec.getLsbD_of_ge _ 32 (Nat.le_refl _), BitVec.getLsbD_of_ge _ 32 (Nat.le_refl _),
      show polynomial.toBitVec.getLsbD 31 = true from rfl, Bool.and_true, Bool.and_true,
      Bool.false_xor, Bool.false_xor] at htop
  refine UInt32.toBitVec_inj.mp (BitVec.eq_of_getLsbD_eq fun i _ => ?_)
  cases i with
  | zero => exact hlow
  | succ i =>
    have hnext := hbit i
    rwa [hlow, Bool.xor_left_inj] at hnext

theorem repeat_injective {α : Type} {f : α → α} (hf : Function.Injective f) (n : Nat) :
    Function.Injective (Nat.repeat f n) := by
  induction n with
  | zero => exact fun _ _ h => h
  | succ n ih => exact fun _ _ h => ih (hf h)

theorem step_injective (b : UInt8) : Function.Injective (step · b) := fun _ _ h =>
  (UInt32.xor_left_inj _).mp (repeat_injective shift_injective 8 h)

/-- Different bytes leave different registers. -/
theorem byte_of_step {register : UInt32} {b b' : UInt8} (h : step register b = step register b') :
    b = b' :=
  UInt8.toUInt32_inj.mp ((UInt32.xor_right_inj _).mp (repeat_injective shift_injective 8 h))

theorem foldl_step_injective (bytes : List UInt8) : Function.Injective (bytes.foldl step ·) := by
  induction bytes with
  | nil => exact fun _ _ h => h
  | cons b bytes ih => exact fun _ _ h => step_injective b (ih h)

/-- Payloads that differ in one byte have different checksums. -/
theorem byte_of_crc32 {front back : List UInt8} {b b' : UInt8}
    (h : crc32 (front ++ b :: back) = crc32 (front ++ b' :: back)) : b = b' := by
  rw [crc32, crc32, UInt32.xor_left_inj, List.foldl_append, List.foldl_append] at h
  exact byte_of_step (foldl_step_injective back h)

end Checksum

namespace Journal

open Wire

/-! ## What the reader takes is an entry -/

/-- A payload between its length and its checksum. -/
def framed (payload : List UInt8) : List UInt8 :=
  encode (UInt32.ofNat payload.length) ++ payload ++ encode (Checksum.crc32 payload)

theorem littleEndian_of_read {width n : Nat} {bytes rest : List UInt8}
    (h : (readLittleEndian width).run bytes = some (n, rest)) :
    bytes = littleEndian width n ++ rest := by
  induction width generalizing n bytes with
  | zero =>
    cases h
    rfl
  | succ width ih =>
    cases bytes with
    | nil => cases h
    | cons low bytes =>
      rw [run_readLittleEndian_succ, Option.map_eq_some_iff] at h
      obtain ⟨⟨high, left⟩, hhigh, heq⟩ := h
      cases heq
      have hlow : UInt8.ofNat (low.toNat + 256 * high) = low := by
        rw [← UInt8.toNat_inj, UInt8.toNat_ofNat']
        have := low.toNat_lt
        omega
      have hquotient : (low.toNat + 256 * high) / 256 = high := by
        have := low.toNat_lt
        omega
      rw [littleEndian, hlow, hquotient, List.cons_append, ← ih hhigh]

theorem word_of_decode {n : UInt32} {bytes rest : List UInt8}
    (h : (decode : Decoder UInt32).run bytes = some (n, rest)) : bytes = encode n ++ rest :=
  littleEndian_of_read (decode_UInt32_eq_some h).1

theorem bytes_of_require {α : Type} {o : Option α} {a : α} {bytes rest : List UInt8}
    (h : (require o).run bytes = some (a, rest)) : rest = bytes := by
  cases o <;> cases h
  rfl

/-- Bytes from which a payload is read begin with that payload's frame. -/
theorem framed_of_readPayload {bytes payload rest : List UInt8}
    (h : readPayload.run bytes = some (payload, rest)) :
    payload.length < 2 ^ 32 ∧ bytes = framed payload ++ rest := by
  simp only [readPayload, StateT.run_bind, Option.bind_eq_bind, Option.bind_eq_some_iff] at h
  obtain ⟨⟨size, behind⟩, hsize, ⟨front, left⟩, htake, ⟨checksum, left'⟩, hsum, hcheck⟩ := h
  have hsame := require_eq_some hcheck
  rw [Option.ite_none_right_eq_some] at hsame
  obtain ⟨hchecksum, hpayload⟩ := hsame
  obtain rfl : front = payload := Option.some.inj hpayload
  obtain rfl : rest = left' := bytes_of_require hcheck
  obtain rfl : checksum = Checksum.crc32 front := hchecksum
  have hbytes : bytes = encode size ++ behind := word_of_decode hsize
  have hleft : left = encode (Checksum.crc32 front) ++ rest := word_of_decode hsum
  obtain ⟨hlength, hbehind⟩ : front.length = size.toNat ∧ behind = front ++ left := by
    obtain ⟨hfits, hfront, hrest⟩ := take_eq_some htake
    rw [hfront, hrest]
    exact ⟨List.length_take_of_le hfits, (List.take_append_drop _ _).symm⟩
  refine ⟨hlength ▸ size.toNat_lt, ?_⟩
  rw [framed, hlength, UInt32.ofNat_toNat, hbytes, hbehind, hleft]
  simp only [List.append_assoc]

/-! ## One wrong byte -/

theorem encode_injective {α : Type} [Wire α] [LawfulWire α] {a b : α}
    (hsize : (encode a).length < 2 ^ 64) (h : encode a = encode b) : a = b := by
  have hread : some (a, []) = some (b, ([] : List UInt8)) :=
    (run_encode hsize).symm.trans (h ▸ run_encode (h ▸ hsize))
  exact (Prod.mk.inj (Option.some.inj hread)).1

/-- A payload and its checksum with one wrong byte are no payload and its checksum. -/
theorem altered_ne {payload other : List UInt8} (hlength : other.length = payload.length) {k : Nat}
    {b : UInt8} (hk : k < payload.length + 4)
    (hb : (payload ++ encode (Checksum.crc32 payload))[k]? ≠ some b) :
    (payload ++ encode (Checksum.crc32 payload)).set k b ≠
      other ++ encode (Checksum.crc32 other) := by
  intro h
  rw [List.set_append] at h
  split at h
  next hinside =>
    obtain ⟨hother, hsum⟩ := List.append_inj h (by rw [List.length_set, hlength])
    have hsum := encode_injective (by rw [length_encode_word]; decide) hsum
    rw [← hother, List.set_eq_take_append_cons_drop, if_pos hinside] at hsum
    have hsame : payload = payload.take k ++ payload[k] :: payload.drop (k + 1) := by simp
    obtain rfl := Checksum.byte_of_crc32 ((congrArg _ hsame).symm.trans hsum)
    exact hb (by rw [List.getElem?_append_left hinside, List.getElem?_eq_getElem hinside])
  next hbehind =>
    obtain ⟨rfl, hsum⟩ := List.append_inj h hlength.symm
    have hmoved := congrArg (·[k - payload.length]?) hsum
    rw [List.getElem?_set_self (by rw [length_encode_word]; omega)] at hmoved
    exact hb (by rw [List.getElem?_append_right (by omega), hmoved])

/-- An entry with a wrong byte behind its length cannot be read, whatever follows it. -/
theorem readEntry_altered {commit : Commit} (h : legible commit = true) {j : Nat} (hj : 4 ≤ j)
    {b : UInt8} (hin : j < (entry commit).length) (hb : (entry commit)[j]? ≠ some b)
    (rest : List UInt8) : readEntry.run ((entry commit).set j b ++ rest) = none := by
  have hlegible : (encode commit).length < 2 ^ 32 := of_decide_eq_true h
  have hentry : entry commit = encode (UInt32.ofNat (encode commit).length) ++
      (encode commit ++ encode (Checksum.crc32 (encode commit))) := List.append_assoc _ _ _
  cases hrun : readEntry.run ((entry commit).set j b ++ rest) with
  | none => rfl
  | some found =>
    simp only [readEntry, StateT.run_bind, Option.bind_eq_bind, Option.bind_eq_some_iff] at hrun
    obtain ⟨⟨other, left⟩, hread, -⟩ := hrun
    obtain ⟨hother, hbytes⟩ := framed_of_readPayload hread
    rw [hentry, List.set_append_right _ _ (by rw [length_encode_word]; exact hj),
      length_encode_word, framed, List.append_assoc, List.append_assoc, List.append_assoc] at hbytes
    obtain ⟨hsize, hbody⟩ :=
      List.append_inj hbytes (by rw [length_encode_word, length_encode_word])
    have hlength : other.length = (encode commit).length := by
      have hsize := encode_injective (by rw [length_encode_word]; decide) hsize
      have hsize := congrArg UInt32.toNat hsize
      rwa [UInt32.toNat_ofNat_of_lt' hlegible, UInt32.toNat_ofNat_of_lt' hother, eq_comm] at hsize
    rw [← List.append_assoc other] at hbody
    obtain ⟨hbody, -⟩ := List.append_inj hbody (by simp [length_encode_word, hlength])
    refine absurd hbody (altered_ne hlength ?_ ?_)
    · rw [length_entry] at hin
      omega
    · rwa [hentry, List.getElem?_append_right (by rw [length_encode_word]; exact hj),
        length_encode_word] at hb

theorem entries_eq_around {written : List Commit} {i : Nat} (hi : i < written.length) :
    entries written = entries (written.take i) ++
      (entry written[i] ++ entries (written.drop (i + 1))) :=
  calc entries written
    _ = entries (written.take i ++ written[i] :: written.drop (i + 1)) := by simp
    _ = entries (written.take i) ++ entries (written[i] :: written.drop (i + 1)) :=
      entries_append _ _

/-- A byte changed in the payload or the checksum of an entry is always noticed: exactly the commits
in front of the entry are found. -/
theorem corruption_caught (written : List Commit)
    (hsize : ∀ c ∈ written, (encode c).length < 2 ^ 32) (i : Nat) (hi : i < written.length)
    (j : Nat) (hj : 4 ≤ j) (hin : j < (entry written[i]).length) (b : UInt8)
    (hb : b ≠ (entry written[i])[j]) :
    let file := (entries written).set ((entries (written.take i)).length + j) b
    (LogPath.file file.toArray).replay = .ok (written.take i) := by
  intro file
  have hlegible : ∀ c ∈ written, legible c = true := fun c hc => decide_eq_true (hsize c hc)
  have hfile : file = entries (written.take i) ++
      ((entry written[i]).set j b ++ entries (written.drop (i + 1))) := by
    rw [show file = (entries written).set _ b from rfl, entries_eq_around hi,
      List.set_append_right _ _ (Nat.le_add_right _ _), Nat.add_sub_cancel_left,
      List.set_append_left _ _ hin]
  have hstop :
      readEntry.run ((entry written[i]).set j b ++ entries (written.drop (i + 1))) = none :=
    readEntry_altered (hlegible _ (List.getElem_mem hi)) hj hin
      (by rwa [List.getElem?_eq_getElem hin, ne_eq, Option.some.injEq, eq_comm]) _
  have hfound : commits file = written.take i := by
    rw [hfile, commits_entries_append fun c hc => hlegible c (List.mem_of_mem_take hc),
      commits_of_none hstop, List.append_nil]
  exact congrArg Except.ok hfound

theorem corruption_caught_sample :
    let written : List Commit := [[.visitDeleted 7], [.visitDeleted 8], [.visitDeleted 9]]
    (∀ c ∈ written, (encode c).length < 2 ^ 32) ∧
    (LogPath.file ((entries written).set 44 9).toArray).replay = .ok [[.visitDeleted 7]] := by
  intro written
  have hsize : ∀ c ∈ written, (encode c).length < 2 ^ 32 := by decide +kernel
  exact ⟨hsize, corruption_caught written hsize 1 (by decide) 16 (by decide) (by decide +kernel) 9
    (by decide +kernel)⟩

end Journal

end PrisonVisits
