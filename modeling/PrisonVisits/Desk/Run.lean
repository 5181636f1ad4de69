import PrisonVisits.Desk.Upkeep

/-! Runs of the desk. An action is a request to the desk or something that happens around it; a run
performs actions one after the other, and a refused request is part of it like any other. -/

namespace PrisonVisits

inductive Action where
  | createGroup (prisonCode name : String) (entries : GroupEntries)
  | updateGroup (reference : Reference) (name : String) (entries : GroupEntries)
  | deleteGroup (reference : Reference)
  | createTemplate (draft : TemplateDraft)
  | updateTemplate (reference : Reference) (draft : TemplateDraft)
  | setTemplateActive (reference : Reference) (active : Bool)
  | deleteTemplate (reference : Reference)
  | reserve (request : ReserveRequest)
  | change (request : ChangeRequest)
  | amend (application : Reference) (amendment : Amendment)
  | book (application : Reference) (actionedBy : String)
  | cancel (bookingReference : Reference) (cancellation : Cancellation)
  | discard (application : Reference) (actionedBy : String)
  | expire
  | compact
  /-- A restart on an undamaged journal. -/
  | restart
  | setClock (now : Moment)
  | setPrisoner (context : PrisonerContext)
  | subscribe (receiver : String) (bookingReference : Reference)
  | poll (receiver : String) (atMost : Option Nat)
  | unsubscribe (receiver : String)
  | pruneFeed

namespace Desk

def perform (d : Desk) : Action → Desk
  | .createGroup prisonCode name entries => (d.createGroup prisonCode name entries).2
  | .updateGroup reference name entries => (d.updateGroup reference name entries).2
  | .deleteGroup reference => (d.deleteGroup reference).2
  | .createTemplate draft => (d.createTemplate draft).2
  | .updateTemplate reference draft => (d.updateTemplate reference draft).2
  | .setTemplateActive reference active => (d.setTemplateActive reference active).2
  | .deleteTemplate reference => (d.deleteTemplate reference).2
  | .reserve request => (d.reserve request).2
  | .change request => (d.change request).2
  | .amend application amendment => (d.amend application amendment).2
  | .book application actionedBy => (d.book application actionedBy).2
  | .cancel bookingReference cancellation => (d.cancel bookingReference cancellation).2
  | .discard application actionedBy => (d.discard application actionedBy).2
  | .expire => d.expire.2
  | .compact => d.compact.2
  | .restart => d.restart .none
  | .setClock now => d.setClock now
  | .setPrisoner context => d.setPrisoner context
  | .subscribe receiver bookingReference =>
    { d with feed := d.feed.subscribe receiver bookingReference }
  | .poll receiver atMost =>
    match d.feed.poll receiver atMost with
    | some (_, feed) => { d with feed }
    | none => d
  | .unsubscribe receiver => { d with feed := d.feed.unsubscribe receiver }
  | .pruneFeed => { d with feed := d.feed.prune }

def run (d : Desk) (actions : List Action) : Desk := actions.foldl perform d

theorem run_append (d : Desk) (earlier later : List Action) :
    d.run (earlier ++ later) = (d.run earlier).run later :=
  List.foldl_append

end Desk

end PrisonVisits
