import Mathlib.Algebra.Group.Nat.Defs
import PrisonVisits.Journal.Wire

/-! # Bytes are read back

`Reads` says that a decoder takes exactly the given bytes off the front of any input; readers of
parts compose to readers of wholes. A length of more than 64 bits would not be written in full, so
every statement is about bytes that a 64-bit machine can count. `Steady` says that a decoder which
has found its value finds the same one when more bytes follow. A type with both properties is a
`LawfulWire`. -/

namespace PrisonVisits.Wire

/-- The decoder takes just these bytes, whatever follows them, and gives the value. -/
def Reads {α : Type} (d : Decoder α) (bytes : List UInt8) (a : α) : Prop :=
  bytes.length < 2 ^ 64 → ∀ rest, d.run (bytes ++ rest) = some (a, rest)

/-- More bytes behind those that were enough change nothing. -/
def Steady {α : Type} (d : Decoder α) : Prop :=
  ∀ bytes a rest more, d.run bytes = some (a, rest) → d.run (bytes ++ more) = some (a, rest ++ more)

namespace Reads

theorem pure {α : Type} (a : α) : Reads (pure a) [] a := fun _ _ => rfl

theorem bind {α β : Type} {d : Decoder α} {f : α → Decoder β} {bytes more : List UInt8} {a : α}
    {b : β} (hd : Reads d bytes a) (hf : Reads (f a) more b) :
    Reads (d >>= f) (bytes ++ more) b := by
  intro hlen rest
  simp only [List.length_append] at hlen
  simp only [List.append_assoc, StateT.run_bind, hd (by omega), Option.bind_eq_bind,
    Option.bind_some]
  exact hf (by omega) rest

/-- The last decoder of a row; nothing is read behind it. -/
theorem map {α β : Type} {d : Decoder α} {f : α → Decoder β} {bytes : List UInt8} {a : α} {b : β}
    (hd : Reads d bytes a) (hf : Reads (f a) [] b) : Reads (d >>= f) bytes b := by
  simpa using hd.bind hf

theorem require {α : Type} {o : Option α} {a : α} (h : o = some a) : Reads (require o) [] a := by
  subst h; exact pure a

theorem byte (b : UInt8) : Reads byte [b] b := fun _ _ => rfl

theorem take {n : Nat} {bytes : List UInt8} (h : bytes.length = n) :
    Reads (take n) bytes bytes := by
  intro _ rest
  simp [StateT.run, Wire.take, ← h]

theorem readLittleEndian (width n : Nat) :
    Reads (readLittleEndian width) (littleEndian width n) (n % 256 ^ width) := by
  induction width generalizing n with
  | zero => rw [Nat.pow_zero, Nat.mod_one]; exact pure 0
  | succ width ih =>
    have hvalue : (UInt8.ofNat n).toNat + 256 * (n / 256 % 256 ^ width) =
        n % 256 ^ (width + 1) := by
      rw [Nat.pow_succ, Nat.mul_comm (256 ^ width), Nat.mod_mul, UInt8.toNat_ofNat']
    rw [← hvalue]
    exact (byte (UInt8.ofNat n)).bind ((ih (n / 256)).map (pure _))

end Reads

namespace Steady

theorem pure {α : Type} (a : α) : Steady (pure a) := by
  intro bytes b rest more h
  cases h; rfl

theorem bind {α β : Type} {d : Decoder α} {f : α → Decoder β} (hd : Steady d)
    (hf : ∀ a, Steady (f a)) : Steady (d >>= f) := by
  intro bytes b rest more h
  simp only [StateT.run_bind, Option.bind_eq_bind, Option.bind_eq_some_iff] at h ⊢
  obtain ⟨⟨a, middle⟩, ha, hb⟩ := h
  exact ⟨(a, middle ++ more), hd _ _ _ _ ha, hf a _ _ _ _ hb⟩

theorem require {α : Type} (o : Option α) : Steady (require o) := by
  cases o with
  | none => intro bytes b rest more h; cases h
  | some a => exact pure a

theorem byte : Steady byte := by
  intro bytes b rest more h
  cases bytes with
  | nil => cases h
  | cons c cs => cases h; rfl

theorem take (n : Nat) : Steady (take n) := by
  intro bytes a rest more h
  simp only [StateT.run, Wire.take, List.splitAt_eq] at h ⊢
  split at h
  · rename_i hlen
    cases h
    have hle : n ≤ bytes.length := by
      rw [List.length_take] at hlen; omega
    simp [List.take_append_of_le_length hle, List.drop_append_of_le_length hle, hle]
  · cases h

theorem readLittleEndian (width : Nat) : Steady (readLittleEndian width) := by
  induction width with
  | zero => exact pure 0
  | succ width ih => exact byte.bind fun _ => ih.bind fun _ => pure _

/-- A decoder that uses up its bytes finds nothing when their end is missing. -/
theorem run_take {α : Type} {d : Decoder α} (hd : Steady d) {bytes : List UInt8} {a : α}
    (h : d.run bytes = some (a, [])) {n : Nat} (hn : n < bytes.length) :
    d.run (bytes.take n) = none := by
  cases htake : d.run (bytes.take n) with
  | none => rfl
  | some found =>
    obtain ⟨b, rest⟩ := found
    have hfull := hd _ _ _ (bytes.drop n) htake
    rw [List.take_append_drop, h] at hfull
    have hrest : [] = rest ++ bytes.drop n := congrArg Prod.snd (Option.some.inj hfull)
    have hdrop := congrArg List.length (List.append_eq_nil_iff.mp hrest.symm).2
    simp only [List.length_drop, List.length_nil] at hdrop
    omega

end Steady

/-- A type whose values are read back from their bytes. No value has an empty form, so a list has at
least a byte for each of its elements. -/
class LawfulWire (α : Type) [Wire α] : Prop where
  reads : ∀ a : α, Reads decode (encode a) a
  steady : Steady (decode : Decoder α)
  nonempty : ∀ a : α, encode a ≠ []

section

variable {α β : Type} [Wire α] [LawfulWire α]

/-- A row goes on with this field. -/
theorem Reads.field (a : α) {f : α → Decoder β} {more : List UInt8} {b : β}
    (hf : Reads (f a) more b) : Reads (decode >>= f) (encode a ++ more) b :=
  (LawfulWire.reads a).bind hf

/-- A row ends with this field. -/
theorem Reads.last (a : α) {f : α → Decoder β} {b : β} (hf : f a = Pure.pure b) :
    Reads (decode >>= f) (encode a) b :=
  (LawfulWire.reads a).map (hf ▸ Reads.pure b)

theorem Steady.field {f : α → Decoder β} (hf : ∀ a, Steady (f a)) : Steady (decode >>= f) :=
  LawfulWire.steady.bind hf

end

theorem take_eq_some {n : Nat} {bytes front rest : List UInt8}
    (h : (take n).run bytes = some (front, rest)) :
    n ≤ bytes.length ∧ front = bytes.take n ∧ rest = bytes.drop n := by
  simp only [StateT.run, take, List.splitAt_eq] at h
  split at h
  · next hlength =>
    cases h
    rw [List.length_take] at hlength
    exact ⟨by omega, rfl, rfl⟩
  · cases h

theorem require_eq_some {α : Type} {o : Option α} {a : α} {bytes rest : List UInt8}
    (h : (require o).run bytes = some (a, rest)) : o = some a := by
  cases o <;> cases h
  rfl

/-! ## Integers and strings -/

theorem littleEndian_succ_ne_nil (width n : Nat) : littleEndian (width + 1) n ≠ [] := by
  simp [littleEndian]

theorem length_littleEndian (width n : Nat) : (littleEndian width n).length = width := by
  induction width generalizing n with
  | zero => rfl
  | succ width ih => simp [littleEndian, ih]

theorem length_encode_word (n : UInt32) : (encode n).length = 4 := length_littleEndian 4 n.toNat

theorem run_readLittleEndian_succ (width : Nat) (b : UInt8) (bytes : List UInt8) :
    (readLittleEndian (width + 1)).run (b :: bytes) =
      ((readLittleEndian width).run bytes).map fun found => (b.toNat + 256 * found.1, found.2) := by
  change ((readLittleEndian width).run bytes).bind
    (fun found => some (b.toNat + 256 * found.1, found.2)) = _
  exact Option.map_eq_bind.symm

theorem readLittleEndian_eq_some {width n : Nat} {bytes rest : List UInt8}
    (h : (readLittleEndian width).run bytes = some (n, rest)) :
    n < 256 ^ width ∧ width ≤ bytes.length ∧ rest = bytes.drop width := by
  induction width generalizing bytes n with
  | zero =>
    cases h
    exact ⟨by decide, Nat.zero_le _, rfl⟩
  | succ width ih =>
    cases bytes with
    | nil => cases h
    | cons b bytes =>
      rw [run_readLittleEndian_succ, Option.map_eq_some_iff] at h
      obtain ⟨⟨high, left⟩, hhigh, heq⟩ := h
      cases heq
      obtain ⟨hlt, hlength, rfl⟩ := ih hhigh
      have hb := b.toNat_lt
      rw [Nat.pow_succ]
      exact ⟨by omega, Nat.succ_le_succ hlength, rfl⟩

/-- A byte weighs the more the later it comes. -/
theorem le_readLittleEndian {front : List UInt8} {b : UInt8} {width n : Nat}
    {bytes rest : List UInt8} (hwidth : front.length < width)
    (h : (readLittleEndian width).run (front ++ b :: bytes) = some (n, rest)) :
    256 ^ front.length * b.toNat ≤ n := by
  obtain ⟨width, rfl⟩ := Nat.exists_eq_succ_of_ne_zero (Nat.ne_zero_of_lt hwidth)
  induction front generalizing width n with
  | nil =>
    rw [List.nil_append, run_readLittleEndian_succ, Option.map_eq_some_iff] at h
    obtain ⟨⟨high, left⟩, -, heq⟩ := h
    cases heq
    simp
  | cons c front ih =>
    rw [List.cons_append, run_readLittleEndian_succ, Option.map_eq_some_iff] at h
    obtain ⟨⟨high, left⟩, hhigh, heq⟩ := h
    cases heq
    rw [List.length_cons] at hwidth
    cases width with
    | zero => omega
    | succ width =>
      have hle := ih width (by omega) hhigh
      rw [List.length_cons, Nat.pow_succ, Nat.mul_right_comm]
      omega

instance : LawfulWire UInt32 where
  reads n := by
    refine (Reads.readLittleEndian 4 n.toNat).map ?_
    rw [Nat.mod_eq_of_lt (show n.toNat < 256 ^ 4 from n.toNat_lt), UInt32.ofNat_toNat]
    exact .pure n
  steady := (Steady.readLittleEndian 4).bind fun _ => .pure _
  nonempty _ := littleEndian_succ_ne_nil _ _

theorem decode_UInt32_eq_some {n : UInt32} {bytes rest : List UInt8}
    (h : (decode : Decoder UInt32).run bytes = some (n, rest)) :
    (readLittleEndian 4).run bytes = some (n.toNat, rest) ∧ 4 ≤ bytes.length ∧
      rest = bytes.drop 4 := by
  change ((readLittleEndian 4).run bytes).bind
    (fun found => some (UInt32.ofNat found.1, found.2)) = _ at h
  rw [Option.bind_eq_some_iff] at h
  obtain ⟨⟨value, left⟩, hread, heq⟩ := h
  cases heq
  obtain ⟨hlt, hrest⟩ := readLittleEndian_eq_some hread
  rw [UInt32.toNat_ofNat_of_lt' hlt]
  exact ⟨hread, hrest⟩

instance : LawfulWire UInt64 where
  reads n := by
    refine (Reads.readLittleEndian 8 n.toNat).map ?_
    rw [Nat.mod_eq_of_lt (show n.toNat < 256 ^ 8 from n.toNat_lt), UInt64.ofNat_toNat]
    exact .pure n
  steady := (Steady.readLittleEndian 8).bind fun _ => .pure _
  nonempty _ := littleEndian_succ_ne_nil _ _

instance : LawfulWire Int64 where
  reads n := Reads.last n.toUInt64 (by simp)
  steady := .field fun _ => .pure _
  nonempty n := LawfulWire.nonempty n.toUInt64

instance : LawfulWire Bool where
  reads b := by cases b <;> exact (Reads.byte _).map (.pure _)
  steady := by
    refine Steady.byte.bind fun b => ?_
    split
    · exact .pure false
    · exact .pure true
    · exact .require none
  nonempty b := by cases b <;> decide

theorem fromUTF8?_toUTF8 (s : String) : String.fromUTF8? s.toUTF8 = some s := by
  have hvalid : s.toUTF8.IsValidUTF8 := s.isValidUTF8
  simp only [String.fromUTF8?, dif_pos hvalid]
  rfl

instance : LawfulWire String where
  reads s := by
    intro hlen
    have hsize : s.toUTF8.data.toList.length = s.utf8ByteSize := by simp [← String.size_toByteArray]
    have hfits : s.utf8ByteSize < 2 ^ 64 := by
      have := hlen
      change (encode (UInt64.ofNat s.utf8ByteSize) ++ s.toUTF8.data.toList).length < 2 ^ 64 at this
      rw [List.length_append] at this
      omega
    have hvalue : String.fromUTF8? ⟨s.toUTF8.data.toList.toArray⟩ = some s := by
      rw [Array.toArray_toList]
      exact fromUTF8?_toUTF8 s
    refine Reads.field (UInt64.ofNat s.utf8ByteSize) (Reads.map (Reads.take ?_)
      (.require hvalue)) hlen
    rw [hsize, UInt64.toNat_ofNat_of_lt' hfits]
  steady := .field fun _ => (Steady.take _).bind fun _ => .require _
  nonempty _ := List.append_ne_nil_of_left_ne_nil (LawfulWire.nonempty _) _

/-! ## Options, lists and words -/

section

variable {α : Type} [Wire α] [LawfulWire α]

instance : LawfulWire (Option α) where
  reads
    | none => (Reads.byte 0).map (.pure none)
    | some a => (Reads.byte 1).bind (.last a rfl)
  steady := by
    refine Steady.byte.bind fun b => ?_
    split
    · exact .pure none
    · exact .field fun _ => .pure _
    · exact .require none
  nonempty a := by cases a <;> simp [encode]

theorem Reads.decodeMany (as : List α) : Reads (decodeMany as.length) (as.flatMap encode) as := by
  induction as with
  | nil => exact .pure []
  | cons a as ih => exact .field a (ih.map (.pure _))

theorem Steady.decodeMany (n : Nat) : Steady (decodeMany n : Decoder (List α)) := by
  induction n with
  | zero => exact .pure []
  | succ n ih => exact .field fun _ => ih.bind fun _ => .pure _

/-- Each element takes a byte at least. -/
theorem length_le_flatMap_encode (as : List α) : as.length ≤ (as.flatMap encode).length := by
  induction as with
  | nil => simp
  | cons a as ih =>
    have ha : 0 < (encode a).length := List.length_pos_iff.mpr (LawfulWire.nonempty a)
    simp only [List.flatMap_cons, List.length_append, List.length_cons]
    omega

instance : LawfulWire (List α) where
  reads as := by
    intro hlen
    have hfits : as.length < 2 ^ 64 := by
      have := hlen
      change (encode (UInt64.ofNat as.length) ++ as.flatMap encode).length < 2 ^ 64 at this
      have hle := length_le_flatMap_encode as
      rw [List.length_append] at this
      omega
    have hmany := Reads.decodeMany as
    rw [← UInt64.toNat_ofNat_of_lt' hfits] at hmany
    exact Reads.field (UInt64.ofNat as.length) hmany hlen
  steady := .field fun _ => .decodeMany _
  nonempty _ := List.append_ne_nil_of_left_ne_nil (LawfulWire.nonempty _) _

end

theorem Reads.readVariant {n : Nat} (h : n < 2 ^ 32) : Reads readVariant (variant n) n :=
  .last (UInt32.ofNat n) (by rw [UInt32.toNat_ofNat_of_lt' h])

theorem Steady.readVariant : Steady readVariant := .field fun _ => .pure _

theorem variant_ne_nil (n : Nat) : variant n ≠ [] := LawfulWire.nonempty (UInt32.ofNat n)

theorem lawful_enumerated {α : Type} [Enumerated α]
    (hplace : ∀ a : α, (Enumerated.words : List α)[Enumerated.place a]? = some a)
    (hmany : (Enumerated.words : List α).length < 2 ^ 32) : @LawfulWire α enumerated :=
  @LawfulWire.mk α enumerated
    (fun a =>
      have hlt : Enumerated.place a < (Enumerated.words : List α).length :=
        (List.getElem?_eq_some_iff.mp (hplace a)).1
      (Reads.readVariant (by omega)).map (.require (hplace a)))
    (Steady.readVariant.bind fun _ => .require _)
    (fun _ => variant_ne_nil _)

theorem lawful_ofText {α : Type} {text : α → String} {read : String → Option α}
    (h : ∀ a, read (text a) = some a) : @LawfulWire α (ofText text read) :=
  @LawfulWire.mk α (ofText text read)
    (fun a => (LawfulWire.reads (text a)).map (.require (h a)))
    (.field fun _ => .require _)
    (fun a => LawfulWire.nonempty (text a))

end PrisonVisits.Wire
