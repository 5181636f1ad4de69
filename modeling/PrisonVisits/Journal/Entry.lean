import PrisonVisits.Journal.Checksum
import PrisonVisits.Journal.RecordWire

/-! Journal entries. An entry is the length of its payload, the payload and the payload's checksum;
the payload is a commit in bytes. Reading a journal goes from entry to entry and stops for good at
the first one that is cut short, fails its checksum or holds no commit, so a transition is read
whole or not at all. -/

namespace PrisonVisits.Journal

open Wire

/-- The bytes of the entry that holds a commit. -/
def entry (commit : Commit) : List UInt8 :=
  let payload := encode commit
  encode (UInt32.ofNat payload.length) ++ payload ++ encode (Checksum.crc32 payload)

def entries (commits : List Commit) : List UInt8 := commits.flatMap entry

/-- The payload of the entry at the front, if it is all there and its checksum is right. -/
def readPayload : Decoder (List UInt8) := do
  let size : UInt32 ← decode
  let payload ← take size.toNat
  let checksum : UInt32 ← decode
  require (if checksum = Checksum.crc32 payload then some payload else none)

/-- The commit of the entry at the front. Bytes of the payload behind the commit do not matter. -/
def readEntry : Decoder Commit := do
  let payload ← readPayload
  require (decode? payload)

theorem shortens_readEntry : Shortens readEntry :=
  .bind
    (.bind (.bind (.readLittleEndian 3) fun _ => .pure _) fun _ => .bind (.take _) fun _ =>
      .bind (.bind (.readLittleEndian 4) fun _ => .pure _) fun _ => .require _)
    fun _ => .require _

/-- The commits of the entries that can be read, in order. -/
def commits (bytes : List UInt8) : List Commit :=
  match _h : readEntry.run bytes with
  | none => []
  | some (commit, rest) => commit :: commits rest
termination_by bytes.length
decreasing_by exact shortens_readEntry _ _ _ _h

end PrisonVisits.Journal
