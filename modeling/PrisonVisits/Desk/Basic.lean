import PrisonVisits.AuditFeed
import PrisonVisits.Desk.Refusal
import PrisonVisits.Eligibility.Rules
import PrisonVisits.Journal.File
import PrisonVisits.Settings
import PrisonVisits.Store.Queries

/-! The visits desk: the store together with its journal, the clock, the directory of prisoners, the
source of references and those who are told of audits. A request is first planned: a plan reads the
desk, may draw references, and ends in a refusal or in a transition, which is an answer and the
records to commit. Only committing changes the desk, and it writes the whole transition as one
journal entry before any of its records takes effect. -/

namespace PrisonVisits

/-- An endless supply of references, of which some have been drawn. Nothing is promised about them;
the same one may come twice. -/
structure ReferenceSource where
  reference : Nat → Reference
  drawn : Nat

namespace ReferenceSource

def draw (s : ReferenceSource) : Reference × ReferenceSource :=
  (s.reference s.drawn, { s with drawn := s.drawn + 1 })

/-- The usual form of a reference: four pairs of lower-case letters, made from the digits of a
random number to the base 26. -/
def ofRandom (random : Nat) : Reference :=
  let letter (i : Nat) : Char := Char.ofNat ('a'.toNat + random / Nat.pow 26 i % 26)
  String.ofList [letter 0, letter 1, '-', letter 2, letter 3, '-', letter 4, letter 5, '-',
    letter 6, letter 7]

end ReferenceSource

structure Desk where
  store : Store
  journal : Journal
  policy : BookingPolicy
  /-- Local time at the desk. -/
  now : Moment
  prisoners : Std.ExtTreeMap String PrisonerContext
  references : ReferenceSource
  feed : AuditFeed
  /-- Every audit handed to the feed, in order. -/
  delivered : List EventAudit
  /-- A folder stands where a compaction would write its file. -/
  compactionBlocked : Bool

/-- Reads the desk elsewhere; draws references here. -/
abbrev Plan (α : Type) := ExceptT Refusal (StateM ReferenceSource) α

/-- What a request does that is not refused. -/
structure Transition (α : Type) where
  answer : α
  records : Commit
  /-- The records save a visit under the next free id. -/
  takesVisitId : Bool

namespace Transition

/-- A transition that saves no new visit. -/
def of {α : Type} (answer : α) (records : Commit) : Transition α := ⟨answer, records, false⟩

/-- Nothing is to be done. -/
def nothing {α : Type} (answer : α) : Transition α := ⟨answer, [], false⟩

end Transition

namespace Store

/-- Draws references until one is unused, but only so many times. -/
def drawUnused (s : Store) : Nat → ReferenceSource → Option Reference × ReferenceSource
  | 0, source => (none, source)
  | attempts + 1, source =>
    let (reference, source) := source.draw
    if s.containsReference reference then s.drawUnused attempts source
    else (some reference, source)

def freshReference (s : Store) : Plan Reference := fun source =>
  match s.drawUnused Limits.maxReferenceAttempts source with
  | (some reference, source) => (.ok reference, source)
  | (none, source) => (.error (.limitExceeded .noFreeReference), source)

end Store

namespace Desk

/-- The desk that works on a journal file. -/
def openOn (journalBytes : Array UInt8) (policy : BookingPolicy) (now : Moment)
    (prisoners : Std.ExtTreeMap String PrisonerContext) (references : ReferenceSource) : Desk :=
  let journal := Journal.ofBytes journalBytes
  { store := .ofCommits journal.replay
    journal
    policy
    now
    prisoners
    references
    feed := .empty
    delivered := []
    compactionBlocked := false }

/-- Appends a commit to the journal, applies its records and hands its audits out. An empty commit
leaves no trace. -/
def commit (d : Desk) (records : Commit) : Desk :=
  if records.isEmpty then d
  else
    let audits := records.filterMap Record.audit?
    { d with
      journal := d.journal.append records
      store := d.store.applyCommit records
      feed := audits.foldl AuditFeed.send d.feed
      delivered := d.delivered ++ audits }

/-- Carries a plan out. A refused plan has used up references and nothing else. -/
def transact {α : Type} (d : Desk) (plan : Plan (Transition α)) : Except Refusal α × Desk :=
  match plan.run.run d.references with
  | (.error refusal, references) => (.error refusal, { d with references })
  | (.ok t, references) =>
    let store := if t.takesVisitId then d.store.takeVisitId.2 else d.store
    (.ok t.answer, { d with references, store }.commit t.records)

/-- Today's date at the desk. -/
def today (d : Desk) : Date := d.now.date

/-- The first and the last date for which a visit may be reserved today. A request that counts past
the end of the calendar comes to nothing. -/
def bookingWindow (d : Desk) : Except Refusal (Date × Date) :=
  match d.today.addDays? d.policy.minDays, d.today.addDays? d.policy.maxDays with
  | some earliest, some latest => .ok (earliest, latest)
  | _, _ => .error (.validation .windowPastCalendar)

def prisoner (d : Desk) (prisonerId : String) : Except Refusal PrisonerContext :=
  match d.prisoners[prisonerId]? with
  | some context => .ok context
  | none => .error (.unknownPrisoner prisonerId)

/-- Enters a prisoner into the directory, or replaces the entry. -/
def setPrisoner (d : Desk) (context : PrisonerContext) : Desk :=
  { d with prisoners := d.prisoners.insert context.prisonerId context }

def setClock (d : Desk) (now : Moment) : Desk := { d with now }

/-- Moves the clock on, or back by a negative number. It does not leave the calendar. -/
def advance (d : Desk) (seconds : Int) : Desk :=
  { d with now := (d.now.addSeconds? seconds).getD d.now }

end Desk

end PrisonVisits
