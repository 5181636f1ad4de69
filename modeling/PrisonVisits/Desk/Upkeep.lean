import PrisonVisits.Desk.Bookings

/-! Upkeep: compaction of the journal, restarts, and the two tasks that run beside the desk. A
reaper discards expired applications and a compactor shortens the journal once enough commits have
piled up; both wake at the same times, and what either sees of the other is fixed by the order of
their steps. -/

namespace PrisonVisits.Desk

/-- Replaces the journal by a snapshot of the store, unless its file cannot be written. -/
def compact (d : Desk) : Except Refusal Unit × Desk :=
  if d.compactionBlocked then (.error .journal, d)
  else (.ok (), { d with journal := d.journal.compact d.store.snapshot })

/-- Puts a folder in the way of compactions, or takes it away. -/
def setCompactionBlocked (d : Desk) (blocked : Bool) : Desk :=
  { d with compactionBlocked := blocked }

/-- Opens the desk anew on its journal, after what befell the file. Whatever is not stored stays as
it is: the clock, the directory, the source of references and the receivers of audits. -/
def restart (d : Desk) (damage : Damage) : Desk :=
  let journal := Journal.ofBytes (d.journal.damage damage).bytes
  { d with journal, store := .ofCommits journal.replay }

/-- One waking of the two tasks. The compactor looks at the number of appends when the first discard
is in the journal and takes its snapshot after the second; discards that are left follow in the new
file. A compaction that fails is tried again at the next waking. -/
def maintain (threshold : Nat) (d : Desk) : Desk :=
  let expired := d.expiredApplications.map (·.reference)
  let d := (expired.take 1).foldl discardExpired d
  let due : Bool := threshold ≤ d.journal.appends
  let d := ((expired.drop 1).take 1).foldl discardExpired d
  let d := if due then d.compact.2 else d
  (expired.drop 2).foldl discardExpired d

/-- The wakings within a time: one at once and one after each interval, which is a second at least.
-/
def wakings (intervalSeconds milliseconds : Nat) : Nat :=
  milliseconds / (1000 * max intervalSeconds 1) + 1

/-- Lets the two tasks run for a time during which the desk's clock stands still. -/
def runMaintenance (d : Desk) (intervalSeconds threshold milliseconds : Nat) : Desk :=
  Nat.repeat (maintain threshold) (wakings intervalSeconds milliseconds) d

end PrisonVisits.Desk
