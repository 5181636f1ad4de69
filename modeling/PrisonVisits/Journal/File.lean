import PrisonVisits.Journal.Entry

/-! The journal as a file. Commits are appended at its end, a compaction replaces it by the commits
of a snapshot, and opening it again keeps its bytes, a torn end included. The path may also be empty
or hold a folder, which no journal can be opened over. -/

namespace PrisonVisits

structure Journal where
  bytes : Array UInt8
  /-- Commits appended since the file was opened or compacted. -/
  appends : Nat
deriving DecidableEq

/-- What happens to the bytes of a file behind the journal's back. -/
structure Damage where
  /-- Bytes cut off the end; all of them at most. -/
  chop : Nat
  /-- Offsets of bytes of which every bit is turned over. -/
  flip : List Nat
  /-- Bytes added at the end. -/
  append : List UInt8

namespace Damage

def none : Damage := ⟨0, [], []⟩

def apply (d : Damage) (bytes : Array UInt8) : Array UInt8 :=
  d.flip.foldl (fun bs i => bs.modify i (· ^^^ 0xFF)) (bytes.take (bytes.size - d.chop)) ++ d.append

end Damage

namespace Journal

/-- The journal of a file that is opened. -/
def ofBytes (bytes : Array UInt8) : Journal := ⟨bytes, 0⟩

def append (j : Journal) (commit : Commit) : Journal := ⟨j.bytes ++ entry commit, j.appends + 1⟩

/-- The file that holds just these commits takes the journal's place. -/
def compact (_ : Journal) (snapshot : List Commit) : Journal := .ofBytes (entries snapshot).toArray

/-- The commits that a reader of the file finds. -/
def replay (j : Journal) : List Commit := commits j.bytes.toList

def damage (j : Journal) (d : Damage) : Journal := { j with bytes := d.apply j.bytes }

end Journal

inductive FileFault where
  | notFound | isADirectory | alreadyExists
deriving DecidableEq

/-- What stands at a journal's path. -/
inductive LogPath where
  | absent
  | folder
  /-- A file that has not been opened as a journal. -/
  | file (bytes : Array UInt8)
  | opened (journal : Journal)

namespace LogPath

/-- The bytes of the file. -/
def read : LogPath → Except FileFault (Array UInt8)
  | absent => .error .notFound
  | folder => .error .isADirectory
  | file bytes => .ok bytes
  | opened journal => .ok journal.bytes

/-- The bytes of the file, or none where nothing stands. -/
def readOrEmpty : LogPath → Except FileFault (Array UInt8)
  | absent => .ok #[]
  | path => path.read

/-- Opens the journal, an empty one where nothing stands. -/
def openJournal (path : LogPath) : Except FileFault Journal := path.readOrEmpty.map .ofBytes

/-- The commits at the path. A journal that is not there yet has none. -/
def replay (path : LogPath) : Except FileFault (List Commit) :=
  path.readOrEmpty.map fun bytes => Journal.commits bytes.toList

def makeFolder : LogPath → Except FileFault LogPath
  | absent => .ok folder
  | _ => .error .alreadyExists

/-- Writes the damaged bytes back. Where nothing stands a file comes into being; a journal that is
open stays so. -/
def damage (path : LogPath) (d : Damage) : Except FileFault LogPath :=
  match path with
  | opened journal => .ok (opened (journal.damage d))
  | path => path.readOrEmpty.map fun bytes => file (d.apply bytes)

end LogPath

end PrisonVisits
