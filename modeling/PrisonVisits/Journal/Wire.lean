import PrisonVisits.Text.Enumerated

/-! Values as bytes. Integers have a fixed width and come lowest byte first, lists and strings carry
their length in eight bytes, an optional value and a Boolean have one leading byte that is 0 or 1,
and the parts of a value follow each other without gaps. A decoder takes its value off the front of
the bytes and leaves the rest, so decoders are run one after the other. -/

namespace PrisonVisits

/-- Takes a value off the front of some bytes, or fails. -/
abbrev Decoder (α : Type) := StateT (List UInt8) Option α

/-- Types whose values have a form in bytes. -/
class Wire (α : Type) where
  encode : α → List UInt8
  decode : Decoder α

namespace Wire

def byte : Decoder UInt8 := fun bytes =>
  match bytes with
  | [] => none
  | b :: rest => some (b, rest)

/-- The first bytes, exactly so many of them. -/
def take (n : Nat) : Decoder (List UInt8) := fun bytes =>
  let (front, rest) := bytes.splitAt n
  if front.length = n then some (front, rest) else none

/-- A number in the given count of bytes, the lowest first. Higher digits are dropped. -/
def littleEndian : Nat → Nat → List UInt8
  | 0, _ => []
  | width + 1, n => UInt8.ofNat n :: littleEndian width (n / 256)

def readLittleEndian : Nat → Decoder Nat
  | 0 => return 0
  | width + 1 => do
    let low ← byte
    let high ← readLittleEndian width
    return low.toNat + 256 * high

/-- A value that fails to be one after all makes the decoder fail. -/
def require {α : Type} : Option α → Decoder α
  | some a => pure a
  | none => fun _ => none

/-- A decoder that never leaves more bytes than it found. -/
def Consumes {α : Type} (d : Decoder α) : Prop :=
  ∀ bytes a rest, d.run bytes = some (a, rest) → rest.length ≤ bytes.length

theorem Consumes.pure {α : Type} (a : α) : Consumes (pure a) := by
  intro bytes b rest h
  cases h
  exact Nat.le_refl _

theorem Consumes.bind {α β : Type} {d : Decoder α} {f : α → Decoder β} (hd : Consumes d)
    (hf : ∀ a, Consumes (f a)) : Consumes (d >>= f) := by
  intro bytes b rest h
  simp only [StateT.run_bind, Option.bind_eq_bind, Option.bind_eq_some_iff] at h
  obtain ⟨⟨a, middle⟩, ha, hb⟩ := h
  exact Nat.le_trans (hf a _ _ _ hb) (hd _ _ _ ha)

theorem Consumes.require {α : Type} (a : Option α) : Consumes (require a) := by
  intro bytes b rest h
  cases a with
  | none => cases h
  | some a => exact Consumes.pure a _ _ _ h

theorem Consumes.take (n : Nat) : Consumes (take n) := by
  intro bytes a rest h
  simp only [StateT.run, Wire.take, List.splitAt_eq] at h
  split at h
  · cases h
    simp
  · cases h

/-- A decoder that takes at least one byte. -/
def Shortens {α : Type} (d : Decoder α) : Prop :=
  ∀ bytes a rest, d.run bytes = some (a, rest) → rest.length < bytes.length

theorem Shortens.consumes {α : Type} {d : Decoder α} (hd : Shortens d) : Consumes d :=
  fun _ _ _ h => Nat.le_of_lt (hd _ _ _ h)

theorem Shortens.bind {α β : Type} {d : Decoder α} {f : α → Decoder β} (hd : Shortens d)
    (hf : ∀ a, Consumes (f a)) : Shortens (d >>= f) := by
  intro bytes b rest h
  simp only [StateT.run_bind, Option.bind_eq_bind, Option.bind_eq_some_iff] at h
  obtain ⟨⟨a, middle⟩, ha, hb⟩ := h
  exact Nat.lt_of_le_of_lt (hf a _ _ _ hb) (hd _ _ _ ha)

theorem Shortens.byte : Shortens byte := by
  intro bytes b rest h
  cases bytes with
  | nil => cases h
  | cons _ _ =>
    cases h
    exact Nat.lt_succ_self _

theorem Consumes.readLittleEndian (width : Nat) : Consumes (readLittleEndian width) := by
  induction width with
  | zero => exact .pure 0
  | succ width ih => exact (Shortens.bind .byte fun _ => .bind ih fun _ => .pure _).consumes

theorem Shortens.readLittleEndian (width : Nat) : Shortens (readLittleEndian (width + 1)) :=
  .bind .byte fun _ => .bind (.readLittleEndian width) fun _ => .pure _

instance : Wire UInt32 where
  encode n := littleEndian 4 n.toNat
  decode := do return UInt32.ofNat (← readLittleEndian 4)

instance : Wire UInt64 where
  encode n := littleEndian 8 n.toNat
  decode := do return UInt64.ofNat (← readLittleEndian 8)

/-- A signed number has the bytes of its two's complement. -/
instance : Wire Int64 where
  encode n := encode n.toUInt64
  decode := do
    let n : UInt64 ← decode
    return n.toInt64

instance : Wire Bool where
  encode b := [if b then 1 else 0]
  decode := do
    match ← byte with
    | 0 => return false
    | 1 => return true
    | _ => require none

instance : Wire String where
  encode s := encode (UInt64.ofNat s.utf8ByteSize) ++ s.toUTF8.data.toList
  decode := do
    let size : UInt64 ← decode
    let bytes ← take size.toNat
    require (String.fromUTF8? ⟨bytes.toArray⟩)

instance {α : Type} [Wire α] : Wire (Option α) where
  encode
    | none => [0]
    | some a => 1 :: encode a
  decode := do
    match ← byte with
    | 0 => return none
    | 1 => return some (← decode)
    | _ => require none

/-- So many values in a row. -/
def decodeMany {α : Type} [Wire α] : Nat → Decoder (List α)
  | 0 => return []
  | n + 1 => do
    let a ← decode
    let rest ← decodeMany n
    return a :: rest

instance {α : Type} [Wire α] : Wire (List α) where
  encode as := encode (UInt64.ofNat as.length) ++ as.flatMap encode
  decode := do
    let size : UInt64 ← decode
    decodeMany size.toNat

/-- The place of a variant in its declaration, in four bytes. -/
def variant (n : Nat) : List UInt8 := encode (UInt32.ofNat n)

def readVariant : Decoder Nat := do
  let n : UInt32 ← decode
  return n.toNat

/-- A word of an enumerated type is written as its place. -/
@[reducible] def enumerated {α : Type} [Enumerated α] : Wire α where
  encode a := variant (Enumerated.place a)
  decode := do
    let place ← readVariant
    require Enumerated.words[place]?

/-- A type that is written as its text. -/
@[reducible] def ofText {α : Type} (text : α → String) (read : String → Option α) : Wire α where
  encode a := encode (text a)
  decode := do
    let s : String ← decode
    require (read s)

/-- Decodes a value from the front of some bytes; what follows it does not matter. -/
def decode? {α : Type} [Wire α] (bytes : List UInt8) : Option α :=
  (decode.run bytes).map Prod.fst

end Wire

end PrisonVisits
