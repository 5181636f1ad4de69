import PrisonVisits.Booking.Record
import Std.Data.ExtTreeMap

/-! The audit feed. Each booking that somebody listens to has a channel, which keeps its last 256
audits. A receiver reads a channel from the moment it subscribed; if it falls further behind than
the channel remembers, it is told how many audits it missed and goes on with the oldest one kept.
Channels without receivers last until they are pruned. -/

namespace PrisonVisits

/-- Audits that a channel remembers. -/
def channelCapacity : Nat := 256

structure Channel where
  /-- Tells a channel from others that the same booking had before or will have later. -/
  id : Nat
  /-- Audits sent so far. -/
  sent : Nat
  /-- The last of them, the oldest first. -/
  recent : List EventAudit
deriving DecidableEq

namespace Channel

def send (c : Channel) (a : EventAudit) : Channel :=
  { c with
    sent := c.sent + 1
    recent := (c.recent ++ [a]).drop (c.recent.length + 1 - channelCapacity) }

/-- The place of the oldest audit that the channel remembers. -/
def oldest (c : Channel) : Nat := c.sent - c.recent.length

end Channel

structure Receiver where
  reference : Reference
  channel : Nat
  /-- The place of the next audit to read. -/
  next : Nat
deriving DecidableEq

/-- What a receiver gets. -/
inductive Delivery where
  | audit (audit : EventAudit)
  /-- So many audits were dropped before they were read. -/
  | lagged (missed : Nat)
  /-- The channel is gone. -/
  | closed
deriving DecidableEq

/-- Channels by booking reference, receivers by the names of those who hold them. -/
structure AuditFeed where
  channels : Std.ExtTreeMap Reference Channel
  receivers : Std.ExtTreeMap String Receiver
  channelsMade : Nat

namespace AuditFeed

def empty : AuditFeed := ⟨∅, ∅, 0⟩

/-- The channel that a receiver reads, if it is still there. -/
def channelOf (f : AuditFeed) (r : Receiver) : Option Channel :=
  f.channels[r.reference]?.filter fun c => c.id = r.channel

/-- A new receiver for a booking, which takes the place of an older one of its name. It will read
what is sent from now on. -/
def subscribe (f : AuditFeed) (name : String) (reference : Reference) : AuditFeed :=
  match f.channels[reference]? with
  | some c => { f with receivers := f.receivers.insert name ⟨reference, c.id, c.sent⟩ }
  | none =>
    { channels := f.channels.insert reference ⟨f.channelsMade, 0, []⟩
      receivers := f.receivers.insert name ⟨reference, f.channelsMade, 0⟩
      channelsMade := f.channelsMade + 1 }

def unsubscribe (f : AuditFeed) (name : String) : AuditFeed :=
  { f with receivers := f.receivers.erase name }

/-- Sends an audit to the channel of its booking. It is lost if there is none. -/
def send (f : AuditFeed) (a : EventAudit) : AuditFeed :=
  match f.channels[a.bookingReference]? with
  | none => f
  | some c => { f with channels := f.channels.insert a.bookingReference (c.send a) }

/-- Drops the channels that nobody reads. -/
def prune (f : AuditFeed) : AuditFeed :=
  { f with channels := f.channels.filter fun reference c =>
      f.receivers.values.any fun r => r.reference = reference && r.channel = c.id }

/-- The next thing that a receiver gets, and the receiver after it. -/
def nextFor (f : AuditFeed) (r : Receiver) : Option (Delivery × Receiver) :=
  match f.channelOf r with
  | none => some (.closed, r)
  | some c =>
    if r.next < c.oldest then some (.lagged (c.oldest - r.next), { r with next := c.oldest })
    else c.recent[r.next - c.oldest]?.map fun a => (.audit a, { r with next := r.next + 1 })

/-- Everything a receiver gets until nothing is left for it, but no more than so many things. A
closed channel ends it. -/
def drain (f : AuditFeed) : Nat → Receiver → List Delivery × Receiver
  | 0, r => ([], r)
  | n + 1, r =>
    match f.nextFor r with
    | none => ([], r)
    | some (.closed, r) => ([.closed], r)
    | some (d, r) =>
      let (rest, r) := f.drain n r
      (d :: rest, r)

/-- Lets the receiver of a name read. A channel never holds more than it remembers, one more
delivery tells of the audits dropped. -/
def poll (f : AuditFeed) (name : String) (atMost : Option Nat) :
    Option (List Delivery × AuditFeed) :=
  f.receivers[name]?.map fun r =>
    let bound := channelCapacity + 1
    let (deliveries, r) := f.drain (min bound (atMost.getD bound)) r
    (deliveries, { f with receivers := f.receivers.insert name r })

end AuditFeed

end PrisonVisits
