import PrisonVisits.Proofs.FeedReceivers
import PrisonVisits.Proofs.History

/-! # Receivers are told what the trail says

The audits that an action files are handed to the feed in the order in which the trails take them.
So what a receiver has been handed, together with what is pending for it, is what the trail of its
booking has gained since it subscribed. -/

namespace PrisonVisits

open Rows

/-- The action subscribes, reads, unsubscribes or prunes, and asks nothing of the store. -/
def Action.ofFeed : Action → Bool
  | .subscribe .. | .poll .. | .unsubscribe _ | .pruneFeed => true
  | _ => false

namespace Desk

variable {d : Desk} {a : Action} {actions : List Action} {name : String} {booking : Reference}
  {pending : List EventAudit}

/-! ## What an action files -/

/-- The audits that an action files, in the order in which they take effect. -/
def auditsOf (d : Desk) (a : Action) : List EventAudit := (d.recordsOf a).filterMap Record.audit?

theorem recordsOf_of_ofFeed (h : a.ofFeed = true) : d.recordsOf a = [] := by
  cases a <;> first | rfl | cases h

theorem feed_expire (references : List Reference) :
    (references.foldl discardExpired d).feed =
      ((d.expiryCommits references).flatten.filterMap Record.audit?).foldl AuditFeed.send
        d.feed := by
  induction references generalizing d with
  | nil => rfl
  | cons reference references ih =>
    rw [List.foldl_cons, ih, discardExpired, commit_feed, expiryCommits, List.flatten_cons,
      List.filterMap_append, List.foldl_append]
    rfl

/-- The feed is sent what an action files. -/
theorem feed_perform (h : a.ofFeed = false) :
    (d.perform a).feed = (d.auditsOf a).foldl AuditFeed.send d.feed := by
  rw [auditsOf]
  cases hplan : d.plan? a with
  | some plan =>
    rw [perform_of_plan hplan]
    cases hgranted : d.granted plan with
    | none =>
      obtain ⟨references, hrefused⟩ := transact_of_refused hgranted
      rw [hrefused, recordsOf_of_refused hplan hgranted]
      rfl
    | some t =>
      obtain ⟨references, hdone⟩ := transact_of_granted hgranted
      rw [hdone, commit_feed, recordsOf_of_granted hplan hgranted]
  | none =>
    by_cases hexpire : a = .expire
    · subst hexpire
      rw [recordsOf_expire]
      exact feed_expire _
    · rw [recordsOf_of_none hplan hexpire]
      cases a
      case compact =>
        change d.compact.2.feed = d.feed
        unfold compact
        split <;> rfl
      case expire => exact absurd rfl hexpire
      case restart | setClock | setPrisoner => rfl
      case subscribe | poll | unsubscribe | pruneFeed => cases h
      all_goals cases hplan

/-- The trail of a booking takes what an action files for it. -/
theorem auditsFor_perform_append (h : a ≠ .restart) (booking : Reference) :
    (d.perform a).store.auditsFor booking = d.store.auditsFor booking ++
      (d.auditsOf a).filter fun e => e.bookingReference = booking :=
  (congrArg (fun t : Rows => t.audits[booking]?.getD []) (rows_perform h)).trans
    (audits_applyCommit ..)

/-! ## One receiver -/

/-- What the receiver of the name is handed by an action. -/
def handedBy (d : Desk) (name : String) : Action → List Delivery
  | .poll receiver atMost =>
    if receiver = name then ((d.feed.poll name atMost).map (·.1)).getD [] else []
  | _ => []

/-- What the receiver of the name is handed along a run. -/
def heard (name : String) : Desk → List Action → List Delivery
  | _, [] => []
  | d, a :: actions => d.handedBy name a ++ heard name (d.perform a) actions

/-- An action that does not end the receiver adds what it files to what is pending, and takes away
what it hands over. -/
theorem follows_perform (h : d.feed.Follows name booking pending) (hends : a ≠ .unsubscribe name)
    (hrenews : ∀ booking, a ≠ .subscribe name booking) : ∃ rest,
      (d.perform a).feed.Follows name booking rest ∧ Accounts (d.handedBy name a)
        (pending ++ (d.auditsOf a).filter fun e => e.bookingReference = booking) rest := by
  cases hfeed : a.ofFeed with
  | false =>
    have hnothing : d.handedBy name a = [] := by
      cases a <;> first | rfl | cases hfeed
    rw [feed_perform hfeed, hnothing]
    exact ⟨_, h.sendAll _, .rest _⟩
  | true =>
    have hnone : d.auditsOf a = [] := by
      rw [auditsOf, recordsOf_of_ofFeed hfeed, List.filterMap_nil]
    rw [hnone, List.filter_nil, List.append_nil]
    cases a
    case subscribe receiver reference =>
      have hother : receiver ≠ name := fun hsame => hrenews reference (hsame ▸ rfl)
      exact ⟨pending, h.subscribe hother reference, .rest _⟩
    case unsubscribe receiver =>
      have hother : receiver ≠ name := fun hsame => hends (hsame ▸ rfl)
      exact ⟨pending, h.unsubscribe hother, .rest _⟩
    case pruneFeed => exact ⟨pending, h.prune, .rest _⟩
    case poll receiver atMost =>
      by_cases hname : receiver = name
      · subst hname
        obtain ⟨g, rest, hpoll, haccounts, hfollows⟩ := h.poll atMost
        refine ⟨rest, ?_, ?_⟩
        · simpa only [perform, hpoll] using hfollows
        · simpa only [handedBy, hpoll, if_true, Option.map_some, Option.getD_some] using haccounts
      · refine ⟨pending, ?_, ?_⟩
        · unfold perform
          dsimp only
          split
          · next hpoll => exact h.poll_of_ne hname hpoll
          · exact h
        · rw [handedBy, if_neg hname]
          exact .rest _
    all_goals cases hfeed

/-- What a receiver has been handed along a run accounts for what was pending and what its booking's
trail has gained, up to what is pending then. -/
theorem follows_run (h : d.feed.Follows name booking pending) (hrestart : .restart ∉ actions)
    (hends : .unsubscribe name ∉ actions) (hrenews : ∀ booking, .subscribe name booking ∉ actions) :
    ∃ gained rest, (d.run actions).store.auditsFor booking =
        d.store.auditsFor booking ++ gained ∧
      Accounts (d.heard name actions) (pending ++ gained) rest ∧
      (d.run actions).feed.Follows name booking rest := by
  induction actions generalizing d pending with
  | nil => exact ⟨[], pending, by simp [run], by simpa [heard] using .rest pending, h⟩
  | cons a actions ih =>
    simp only [List.mem_cons, not_or] at hrestart hends hrenews
    obtain ⟨between, hfollows, hfirst⟩ :=
      follows_perform h (Ne.symm hends.1) fun booking => Ne.symm (hrenews booking).1
    obtain ⟨gained, rest, hgained, hlater, hlast⟩ :=
      ih hfollows hrestart.2 hends.2 fun booking => (hrenews booking).2
    refine ⟨((d.auditsOf a).filter fun e => e.bookingReference = booking) ++ gained, rest, ?_, ?_,
      hlast⟩
    · change ((d.perform a).run actions).store.auditsFor booking = _
      rw [hgained, auditsFor_perform_append (Ne.symm hrestart.1), List.append_assoc]
    · rw [← List.append_assoc]
      exact (hfirst.more gained).append hlater

/-! ## Runs -/

theorem remembers_perform (h : d.feed.Remembers) (a : Action) :
    (d.perform a).feed.Remembers := by
  cases hfeed : a.ofFeed with
  | false =>
    rw [feed_perform hfeed]
    exact h.sendAll _
  | true =>
    cases a
    case subscribe receiver reference => exact h.subscribe receiver reference
    case unsubscribe => exact h
    case pruneFeed => exact h.prune
    case poll receiver atMost =>
      unfold perform
      dsimp only
      split
      · next hpoll =>
        obtain ⟨r, -, hread⟩ := Option.map_eq_some_iff.mp hpoll
        cases hread
        exact h
      · exact h
    all_goals cases hfeed

theorem remembers_run (h : d.feed.Remembers) (actions : List Action) :
    (d.run actions).feed.Remembers := by
  induction actions generalizing d with
  | nil => exact h
  | cons a actions ih => exact ih (remembers_perform h a)

/-- Whenever a receiver subscribes, and whatever happens until it unsubscribes or another one takes
its name, but for a restart: what it has been handed, with what is pending for it, is what the trail
of its booking has gained since. What is pending is handed over when it reads, whole as long as a
channel can hold it. -/
theorem audits_delivered (journalBytes : Array UInt8) (policy : BookingPolicy) (now : Moment)
    (prisoners : Std.ExtTreeMap String PrisonerContext) (references : ReferenceSource)
    (earlier later : List Action) (name : String) (booking : Reference)
    (hrestart : .restart ∉ later) (hends : .unsubscribe name ∉ later)
    (hrenews : ∀ booking, .subscribe name booking ∉ later) :
    let subscribed := ((openOn journalBytes policy now prisoners references).run earlier).perform
      (.subscribe name booking)
    ∃ gained pending, (subscribed.run later).store.auditsFor booking =
        subscribed.store.auditsFor booking ++ gained ∧
      Accounts (subscribed.heard name later) gained pending ∧
      ∀ atMost, ((subscribed.run later).feed.poll name atMost).map (·.1) =
        some (handed pending atMost) := by
  intro subscribed
  have hremembers : ((openOn journalBytes policy now prisoners references).run
      earlier).feed.Remembers :=
    remembers_run AuditFeed.remembers_empty earlier
  have hsubscribed : subscribed.feed.Follows name booking [] := hremembers.follows name booking
  obtain ⟨gained, pending, hgained, haccounts, hfollows⟩ :=
    follows_run hsubscribed hrestart hends hrenews
  refine ⟨gained, pending, hgained, haccounts, fun atMost => ?_⟩
  obtain ⟨g, rest, hpoll, -, -⟩ := hfollows.poll atMost
  rw [hpoll]
  rfl

end Desk

namespace Sample

/-- Beside a guest, who leaves, the host reads a single audit before the visit is booked. -/
def watched : List Action :=
  .subscribe "guest" "b" :: actions ++
    [.poll "host" (some 1), .unsubscribe "guest", .pruneFeed, .book "c" "clerk"]

end Sample

/-- The reservation has been handed over, and the booked visit is pending. -/
theorem Desk.audits_delivered_sample :
    ∃ gained pending, gained.map (·.kind) = [.reservedVisit, .bookedVisit] ∧
      Accounts ((Sample.desk.perform (.subscribe "host" "b")).heard "host" Sample.watched) gained
        pending ∧ (handed pending none).length = 1 := by
  obtain ⟨gained, pending, hgained, haccounts, hhanded⟩ :=
    audits_delivered #[] Sample.policy Sample.desk.now ∅ Sample.letters [] Sample.watched "host" "b"
      (by simp [Sample.watched, Sample.actions]) (by simp [Sample.watched, Sample.actions])
      (by simp [Sample.watched, Sample.actions])
  have hkinds : (((Sample.desk.perform (.subscribe "host" "b")).run
      Sample.watched).store.auditsFor "b").map (·.kind) = [.reservedVisit, .bookedVisit] := by
    decide +kernel
  have hread : (((Sample.desk.perform (.subscribe "host" "b")).run
      Sample.watched).feed.poll "host" none).map (·.1.length) = some 1 := by
    decide +kernel
  refine ⟨gained, pending, ?_, haccounts, ?_⟩
  · have hbefore : (Sample.desk.perform (.subscribe "host" "b")).store.auditsFor "b" = [] := by
      decide +kernel
    have hsince := hgained.trans (congrArg (· ++ gained) hbefore)
    rw [← hkinds]
    exact congrArg (List.map (·.kind)) hsince.symm
  · have hlength := congrArg (Option.map List.length) (hhanded none)
    rw [Option.map_map] at hlength
    exact Option.some.inj (hlength.symm.trans hread)

end PrisonVisits
