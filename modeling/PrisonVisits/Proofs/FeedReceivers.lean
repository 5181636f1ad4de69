import PrisonVisits.AuditFeed
import PrisonVisits.Proofs.Tables

/-! # What a receiver of audits is told

A channel remembers the last of the audits that were sent to it. Seen from a receiver, the rest of
the log that it has not read yet is pending: it is handed over audit by audit as long as the channel
remembers all of it, and otherwise the beginning of it is skipped, which is reported. Nobody else
changes what is pending for a receiver, and its channel stays for as long as it is there. -/

namespace PrisonVisits

open Table

/-! ## Channels -/

namespace Channel

/-- The audits were sent to the channel, which remembers the last of them. -/
structure Keeps (c : Channel) (log : List EventAudit) : Prop where
  sent : c.sent = log.length
  recent : c.recent = log.drop (log.length - channelCapacity)

variable {c : Channel} {log : List EventAudit}

theorem keeps_new (id : Nat) : Keeps ⟨id, 0, []⟩ [] := ⟨rfl, rfl⟩

theorem Keeps.send (h : c.Keeps log) (a : EventAudit) : (c.send a).Keeps (log ++ [a]) where
  sent := by
    rw [Channel.send, h.sent, List.length_append]
    rfl
  recent := by
    have hforgotten : log.length - channelCapacity ≤ log.length := by omega
    have hdropped : log.length - channelCapacity +
        (log.length - (log.length - channelCapacity) + 1 - channelCapacity) =
        log.length + 1 - channelCapacity := by
      omega
    simp only [Channel.send, h.recent, List.length_drop, List.length_append, List.length_singleton]
    rw [← List.drop_append_of_le_length hforgotten, List.drop_drop, hdropped]

theorem Keeps.oldest_eq (h : c.Keeps log) : c.oldest = log.length - channelCapacity := by
  rw [oldest, h.sent, h.recent, List.length_drop]
  omega

end Channel

/-! ## Accounts -/

/-- The deliveries account for the audits up to those that are pending: each is handed over in its
place, or is among those reported as skipped. Audits are skipped only if a channel full of others
comes behind them. -/
inductive Accounts : List Delivery → List EventAudit → List EventAudit → Prop
  | rest (pending : List EventAudit) : Accounts [] pending pending
  | audit {deliveries : List Delivery} {audits pending : List EventAudit} (a : EventAudit)
      (next : Accounts deliveries audits pending) :
      Accounts (.audit a :: deliveries) (a :: audits) pending
  | lagged {deliveries : List Delivery} {audits pending : List EventAudit}
      (skipped : List EventAudit) (some : skipped ≠ []) (full : channelCapacity ≤ audits.length)
      (next : Accounts deliveries audits pending) :
      Accounts (.lagged skipped.length :: deliveries) (skipped ++ audits) pending

namespace Accounts

variable {deliveries deliveries' : List Delivery} {audits between pending : List EventAudit}

/-- New audits come behind all others. -/
theorem more (h : Accounts deliveries audits pending) (new : List EventAudit) :
    Accounts deliveries (audits ++ new) (pending ++ new) := by
  induction h with
  | rest pending => exact .rest _
  | audit a next ih => exact .audit a ih
  | lagged skipped some full next ih =>
    rw [List.append_assoc]
    refine .lagged skipped some ?_ ih
    rw [List.length_append]
    omega

theorem append (h : Accounts deliveries audits between)
    (h' : Accounts deliveries' between pending) :
    Accounts (deliveries ++ deliveries') audits pending := by
  induction h with
  | rest => exact h'
  | audit a next ih => exact .audit a (ih h')
  | lagged skipped some full next ih => exact .lagged skipped some full (ih h')

end Accounts

/-- What a receiver would be handed now, if these audits are pending for it. -/
def due (pending : List EventAudit) : List Delivery :=
  if pending.length ≤ channelCapacity then pending.map .audit
  else .lagged (pending.length - channelCapacity) ::
    (pending.drop (pending.length - channelCapacity)).map .audit

theorem due_nil : due [] = [] := rfl

theorem due_cons {a : EventAudit} {pending : List EventAudit}
    (h : (a :: pending).length ≤ channelCapacity) :
    due (a :: pending) = .audit a :: due pending := by
  have hrest : pending.length ≤ channelCapacity := Nat.le_of_succ_le h
  rw [due, if_pos h, due, if_pos hrest, List.map_cons]

theorem due_of_lt {pending : List EventAudit} (h : channelCapacity < pending.length) :
    due pending = .lagged (pending.length - channelCapacity) ::
      due (pending.drop (pending.length - channelCapacity)) := by
  have hkept : (pending.drop (pending.length - channelCapacity)).length ≤ channelCapacity := by
    rw [List.length_drop]
    omega
  rw [due, if_neg (Nat.not_le.mpr h), due, if_pos hkept]

/-- The first thing that is due, and how many audits are no longer pending once it is read. -/
inductive FirstDue : List EventAudit → Delivery → Nat → Prop
  | audit {a : EventAudit} {rest : List EventAudit} (h : (a :: rest).length ≤ channelCapacity) :
    FirstDue (a :: rest) (.audit a) 1
  | lagged {pending : List EventAudit} (h : channelCapacity < pending.length) :
    FirstDue pending (.lagged (pending.length - channelCapacity)) (pending.length - channelCapacity)

namespace FirstDue

variable {pending rest : List EventAudit} {d : Delivery} {n : Nat}

theorem ne_closed (h : FirstDue pending d n) : d ≠ .closed := by
  cases h <;> nofun

theorem le_length (h : FirstDue pending d n) : n ≤ pending.length := by
  cases h with
  | audit => exact Nat.succ_le_succ (Nat.zero_le _)
  | lagged => exact Nat.sub_le _ _

theorem due_eq (h : FirstDue pending d n) : due pending = d :: due (pending.drop n) := by
  cases h with
  | audit h => exact due_cons h
  | lagged h => exact due_of_lt h

/-- Reading it goes on with an account of what is left. -/
theorem accounts (h : FirstDue pending d n) {deliveries : List Delivery}
    (hrest : Accounts deliveries (pending.drop n) rest) :
    Accounts (d :: deliveries) pending rest := by
  cases h with
  | audit h => exact .audit _ hrest
  | lagged h =>
    have hlength : (pending.take (pending.length - channelCapacity)).length =
        pending.length - channelCapacity := by
      rw [List.length_take]
      omega
    have hsome : pending.take (pending.length - channelCapacity) ≠ [] :=
      List.ne_nil_of_length_pos (by omega)
    have hfull : channelCapacity ≤ (pending.drop (pending.length - channelCapacity)).length := by
      rw [List.length_drop]
      omega
    have hlagged := Accounts.lagged _ hsome hfull hrest
    rwa [List.take_append_drop, hlength] at hlagged

end FirstDue

theorem length_due_le (pending : List EventAudit) : (due pending).length ≤ channelCapacity + 1 := by
  unfold due
  split
  · rw [List.length_map]
    omega
  · rw [List.length_cons, List.length_map, List.length_drop]
    omega

/-- What a receiver is handed when it reads: what is due, but no more than it asks for. -/
def handed (pending : List EventAudit) : Option Nat → List Delivery
  | none => due pending
  | some n => (due pending).take n

theorem take_due (pending : List EventAudit) (atMost : Option Nat) :
    (due pending).take (min (channelCapacity + 1) (atMost.getD (channelCapacity + 1))) =
      handed pending atMost := by
  have hall : (due pending).take (channelCapacity + 1) = due pending :=
    List.take_of_length_le (length_due_le pending)
  cases atMost with
  | none => rw [Option.getD_none, Nat.min_self, hall, handed]
  | some n => rw [Option.getD_some, Nat.min_comm, ← List.take_take, hall, handed]

/-! ## Reading -/

namespace AuditFeed

variable {f : AuditFeed} {r : Receiver} {c : Channel} {log pending : List EventAudit}

/-- One whose channel has forgotten some of what is pending is told how many audits those are. -/
theorem nextFor_of_lt (hchannel : f.channelOf r = some c) (hkeeps : c.Keeps log)
    (h : channelCapacity < (log.drop r.next).length) :
    f.nextFor r = some (.lagged ((log.drop r.next).length - channelCapacity),
      { r with next := r.next + ((log.drop r.next).length - channelCapacity) }) := by
  rw [List.length_drop] at h ⊢
  have hbehind : r.next < c.oldest := by
    rw [hkeeps.oldest_eq]
    omega
  have hskipped : c.oldest - r.next = log.length - r.next - channelCapacity := by
    rw [hkeeps.oldest_eq]
    omega
  have holdest : c.oldest = r.next + (log.length - r.next - channelCapacity) := by
    rw [hkeeps.oldest_eq]
    omega
  unfold nextFor
  rw [hchannel]
  dsimp only
  rw [if_pos hbehind, hskipped, ← holdest]

/-- One whose channel remembers all that is pending gets the first of it. -/
theorem nextFor_of_le (hchannel : f.channelOf r = some c) (hkeeps : c.Keeps log)
    (h : (log.drop r.next).length ≤ channelCapacity) :
    f.nextFor r =
      (log.drop r.next).head?.map fun a => (.audit a, { r with next := r.next + 1 }) := by
  rw [List.length_drop] at h
  have hnear : c.oldest ≤ r.next := by
    rw [hkeeps.oldest_eq]
    omega
  unfold nextFor
  rw [hchannel]
  dsimp only
  rw [if_neg (Nat.not_lt.mpr hnear), hkeeps.recent, ← hkeeps.oldest_eq, List.getElem?_drop,
    Nat.add_sub_of_le hnear, List.head?_drop]

theorem nextFor_cases (hchannel : f.channelOf r = some c) (hkeeps : c.Keeps log) :
    (log.drop r.next = [] ∧ f.nextFor r = none) ∨
      ∃ d n, FirstDue (log.drop r.next) d n ∧
        f.nextFor r = some (d, { r with next := r.next + n }) := by
  by_cases hlong : channelCapacity < (log.drop r.next).length
  · exact .inr ⟨_, _, .lagged hlong, nextFor_of_lt hchannel hkeeps hlong⟩
  · have hshort := Nat.not_lt.mp hlong
    have hstep := nextFor_of_le hchannel hkeeps hshort
    cases hpending : log.drop r.next with
    | nil =>
      rw [hpending] at hstep
      exact .inl ⟨rfl, hstep⟩
    | cons a rest =>
      rw [hpending] at hstep hshort
      exact .inr ⟨.audit a, 1, .audit hshort, hstep⟩

theorem drain_succ {d : Delivery} {r' : Receiver} (h : f.nextFor r = some (d, r'))
    (hopen : d ≠ .closed) (n : Nat) :
    f.drain (n + 1) r = (d :: (f.drain n r').1, (f.drain n r').2) := by
  rw [drain, h]
  cases d with
  | audit | lagged => rfl
  | closed => exact absurd rfl hopen

/-- A receiver that reads so many things gets the first of those that are due. -/
theorem drain_eq (hkeeps : c.Keeps log) (n : Nat) (hchannel : f.channelOf r = some c)
    (hnext : r.next ≤ log.length) : ∃ next ≤ log.length,
      f.drain n r = ((due (log.drop r.next)).take n, { r with next }) ∧
      Accounts ((due (log.drop r.next)).take n) (log.drop r.next) (log.drop next) := by
  induction n generalizing r with
  | zero => exact ⟨r.next, hnext, rfl, .rest _⟩
  | succ n ih =>
    rcases nextFor_cases hchannel hkeeps with ⟨hnone, hstep⟩ | ⟨d, m, hfirst, hstep⟩
    · refine ⟨r.next, hnext, ?_, ?_⟩
      · rw [hnone, drain, hstep, due_nil, List.take_nil]
      · rw [hnone, due_nil]
        exact .rest []
    · have hread : r.next + m ≤ log.length := by
        have hlength := hfirst.le_length
        rw [List.length_drop] at hlength
        omega
      obtain ⟨next, hle, hdrain, haccounts⟩ :=
        ih (r := { r with next := r.next + m }) hchannel hread
      dsimp only at hdrain haccounts
      rw [← List.drop_drop] at hdrain haccounts
      refine ⟨next, hle, ?_, ?_⟩
      · rw [drain_succ hstep hfirst.ne_closed, hdrain, hfirst.due_eq, List.take_succ_cons]
      · rw [hfirst.due_eq, List.take_succ_cons]
        exact hfirst.accounts haccounts

/-! ## One receiver among others -/

/-- The receiver of the name reads the channel of the booking, to which the audits of the log were
sent. -/
structure Reads (f : AuditFeed) (name : String) (booking : Reference) (r : Receiver) (c : Channel)
    (log : List EventAudit) : Prop where
  receiver : f.receivers[name]? = some r
  reference : r.reference = booking
  channel : f.channels[booking]? = some c
  same : c.id = r.channel
  keeps : c.Keeps log
  next_le : r.next ≤ log.length

/-- These audits of the booking are pending for the receiver of the name. -/
def Follows (f : AuditFeed) (name : String) (booking : Reference) (pending : List EventAudit) :
    Prop :=
  ∃ r c log, f.Reads name booking r c log ∧ log.drop r.next = pending

variable {name other : String} {booking : Reference}

theorem Reads.channelOf (h : f.Reads name booking r c log) : f.channelOf r = some c := by
  rw [AuditFeed.channelOf, h.reference, h.channel, Option.filter_some, if_pos]
  exact decide_eq_true h.same

/-- What others do leaves the receiver and its channel in place. -/
theorem Reads.of_same {g : AuditFeed} (h : f.Reads name booking r c log)
    (hreceiver : g.receivers[name]? = f.receivers[name]?)
    (hchannel : g.channels[booking]? = f.channels[booking]?) :
    g.Reads name booking r c log :=
  { h with receiver := hreceiver.trans h.receiver, channel := hchannel.trans h.channel }

theorem Follows.of_same {g : AuditFeed} (h : f.Follows name booking pending)
    (hreceiver : g.receivers[name]? = f.receivers[name]?)
    (hchannel : g.channels[booking]? = f.channels[booking]?) : g.Follows name booking pending := by
  obtain ⟨r, c, log, hreads, hpending⟩ := h
  exact ⟨r, c, log, hreads.of_same hreceiver hchannel, hpending⟩

/-- An audit of the booking becomes pending, and no other one does. -/
theorem Follows.send (h : f.Follows name booking pending) (a : EventAudit) :
    (f.send a).Follows name booking
      (pending ++ [a].filter fun a => a.bookingReference = booking) := by
  by_cases hbooking : a.bookingReference = booking
  · obtain ⟨r, c, log, hreads, rfl⟩ := h
    subst hbooking
    refine ⟨r, c.send a, log ++ [a], ?_, ?_⟩
    · unfold AuditFeed.send
      rw [hreads.channel]
      refine { hreads with channel := ?_, keeps := hreads.keeps.send a, next_le := ?_ }
      · exact (getElem?_insert ..).trans (if_pos rfl)
      · rw [List.length_append]
        exact Nat.le_add_right_of_le hreads.next_le
    · rw [List.drop_append_of_le_length hreads.next_le]
      simp
  · rw [List.filter_cons_of_neg (by simpa using hbooking), List.filter_nil, List.append_nil]
    unfold AuditFeed.send
    split
    · exact h
    · exact h.of_same rfl (getElem?_insert_of_ne hbooking)

theorem Follows.sendAll (h : f.Follows name booking pending) (audits : List EventAudit) :
    (audits.foldl AuditFeed.send f).Follows name booking
      (pending ++ audits.filter fun a => a.bookingReference = booking) := by
  induction audits generalizing f pending with
  | nil => simpa using h
  | cons a audits ih =>
    have hrest := ih (h.send a)
    rwa [List.append_assoc, ← List.filter_append] at hrest

/-- The channel is not pruned while the receiver is there. -/
theorem Follows.prune (h : f.Follows name booking pending) :
    f.prune.Follows name booking pending := by
  refine h.of_same rfl ?_
  obtain ⟨r, c, log, hreads, -⟩ := h
  have hread : (f.receivers.values.any fun r => r.reference = booking && r.channel = c.id) =
      true := by
    refine List.any_eq_true.mpr ⟨r, Table.mem_values.mpr ⟨name, hreads.receiver⟩, ?_⟩
    rw [Bool.and_eq_true, decide_eq_true_eq, decide_eq_true_eq]
    exact ⟨hreads.reference, hreads.same.symm⟩
  change (f.channels.filter _)[booking]? = _
  rw [Std.ExtTreeMap.getElem?_filter', hreads.channel, Option.filter_some, if_pos hread]

theorem Follows.subscribe (h : f.Follows name booking pending) (hother : other ≠ name)
    (reference : Reference) : (f.subscribe other reference).Follows name booking pending := by
  unfold AuditFeed.subscribe
  split
  · exact h.of_same (getElem?_insert_of_ne hother) rfl
  · next hnone =>
    refine h.of_same (getElem?_insert_of_ne hother) (getElem?_insert_of_ne ?_)
    rintro rfl
    obtain ⟨r, c, log, hreads, -⟩ := h
    cases hnone.symm.trans hreads.channel

theorem Follows.unsubscribe (h : f.Follows name booking pending) (hother : other ≠ name) :
    (f.unsubscribe other).Follows name booking pending :=
  h.of_same (getElem?_erase_of_ne hother) rfl

/-- Another receiver that reads takes nothing away. -/
theorem Follows.poll_of_ne (h : f.Follows name booking pending) (hother : other ≠ name)
    {atMost : Option Nat} {deliveries : List Delivery} {g : AuditFeed}
    (hpoll : f.poll other atMost = some (deliveries, g)) : g.Follows name booking pending := by
  obtain ⟨r, -, hread⟩ := Option.map_eq_some_iff.mp hpoll
  cases hread
  exact h.of_same (getElem?_insert_of_ne hother) rfl

/-- The receiver gets what is due, as far as it asks for it, and the rest stays pending. -/
theorem Follows.poll (h : f.Follows name booking pending) (atMost : Option Nat) :
    ∃ g rest, f.poll name atMost = some (handed pending atMost, g) ∧
      Accounts (handed pending atMost) pending rest ∧ g.Follows name booking rest := by
  obtain ⟨r, c, log, hreads, rfl⟩ := h
  obtain ⟨next, hle, hdrain, haccounts⟩ :=
    drain_eq hreads.keeps (min (channelCapacity + 1) (atMost.getD (channelCapacity + 1)))
      hreads.channelOf hreads.next_le
  rw [take_due] at hdrain haccounts
  refine ⟨{ f with receivers := f.receivers.insert name { r with next } }, log.drop next, ?_,
    haccounts, { r with next }, c, log, ?_, rfl⟩
  · rw [AuditFeed.poll, hreads.receiver, Option.map_some]
    dsimp only
    rw [hdrain]
  · exact { hreads with receiver := (getElem?_insert ..).trans (if_pos rfl), next_le := hle }

/-! ## Subscribing -/

/-- Every channel remembers the last of what was sent to it. -/
def Remembers (f : AuditFeed) : Prop :=
  ∀ (booking : Reference) c, f.channels[booking]? = some c → ∃ log, c.Keeps log

theorem remembers_empty : empty.Remembers := by
  intro booking c hc
  simp [empty] at hc

theorem Remembers.send (h : f.Remembers) (a : EventAudit) : (f.send a).Remembers := by
  unfold AuditFeed.send
  split
  · exact h
  · next c hc =>
    intro booking c' hc'
    simp only [getElem?_insert] at hc'
    split at hc'
    · cases hc'
      obtain ⟨log, hkeeps⟩ := h _ c hc
      exact ⟨_, hkeeps.send a⟩
    · exact h booking c' hc'

theorem Remembers.sendAll (h : f.Remembers) (audits : List EventAudit) :
    (audits.foldl AuditFeed.send f).Remembers := by
  induction audits generalizing f with
  | nil => exact h
  | cons a audits ih => exact ih (h.send a)

theorem Remembers.prune (h : f.Remembers) : f.prune.Remembers := by
  intro booking c hc
  change (f.channels.filter _)[booking]? = _ at hc
  rw [Std.ExtTreeMap.getElem?_filter'] at hc
  exact h booking c (Option.filter_eq_some_iff.mp hc).1

theorem Remembers.subscribe (h : f.Remembers) (name : String) (booking : Reference) :
    (f.subscribe name booking).Remembers := by
  unfold AuditFeed.subscribe
  split
  · exact h
  · intro other c hc
    simp only [getElem?_insert] at hc
    split at hc
    · cases hc
      exact ⟨[], Channel.keeps_new _⟩
    · exact h other c hc

/-- Nothing is pending for a new receiver. -/
theorem Remembers.follows (h : f.Remembers) (name : String) (booking : Reference) :
    (f.subscribe name booking).Follows name booking [] := by
  unfold AuditFeed.subscribe
  split
  · next c hc =>
    obtain ⟨log, hkeeps⟩ := h booking c hc
    refine ⟨⟨booking, c.id, c.sent⟩, c, log, ⟨?_, rfl, hc, rfl, hkeeps, ?_⟩, ?_⟩
    · exact (getElem?_insert ..).trans (if_pos rfl)
    · exact Nat.le_of_eq hkeeps.sent
    · exact List.drop_eq_nil_of_le (Nat.le_of_eq hkeeps.sent.symm)
  · refine ⟨⟨booking, f.channelsMade, 0⟩, ⟨f.channelsMade, 0, []⟩, [],
      ⟨?_, rfl, ?_, rfl, Channel.keeps_new _, Nat.le_refl 0⟩, rfl⟩
    · exact (getElem?_insert ..).trans (if_pos rfl)
    · exact (getElem?_insert ..).trans (if_pos rfl)

end AuditFeed

end PrisonVisits
