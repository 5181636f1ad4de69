import PrisonVisits.Eligibility.Rules
import PrisonVisits.Session.Template

/-! Templates compared in pairs. Two templates conflict if they can give sessions that run at the
same time of a common date and admit a common prisoner. One template covers another if every visit
of the other could move to it. Ranges of dates and of times are closed here: touching ends meet. -/

namespace PrisonVisits

/-- A template with the entries of its groups. -/
structure SessionShape where
  template : SessionTemplate
  eligibility : Eligibility

/-- What stops a visit from moving to another template. -/
inductive CoverageGap where
  | prison | location | category | incentive | timeWindow
deriving DecidableEq

def CoverageGap.text : CoverageGap → String
  | prison => "prison"
  | location => "location"
  | category => "category"
  | incentive => "incentive"
  | timeWindow => "time window"

namespace SessionTemplate

/-- Templates without a last day run until the end of the calendar. -/
def sharesDates (a b : SessionTemplate) : Bool :=
  a.validFrom ≤ b.validTo.getD Date.last && b.validFrom ≤ a.validTo.getD Date.last

def sharesTimes (a b : SessionTemplate) : Bool :=
  a.startTime ≤ b.endTime && b.startTime ≤ a.endTime

end SessionTemplate

namespace SessionShape

def conflicts (a b : SessionShape) : Bool :=
  a.template.prisonCode == b.template.prisonCode &&
    a.template.dayOfWeek == b.template.dayOfWeek &&
    a.template.sharesDates b.template && a.template.sharesTimes b.template &&
    a.template.schedule.meets b.template.schedule && a.eligibility.intersects b.eligibility

/-- The other templates that conflict with this one. A template of the same reference is the
template itself, in an older state perhaps, and no conflict. -/
def conflictsAmong (a : SessionShape) (existing : List SessionShape) : List Reference :=
  (existing.filter fun b =>
    b.template.reference != a.template.reference && a.conflicts b).map (·.template.reference)

/-- What a move from one template to another would lose. -/
def gapsTo (source target : SessionShape) : List CoverageGap :=
  let s := source.template
  let t := target.template
  (if s.prisonCode = t.prisonCode then [] else [.prison]) ++
    (if target.eligibility.locations.covers source.eligibility.locations then []
      else [.location]) ++
    (if target.eligibility.categories.covers source.eligibility.categories then []
      else [.category]) ++
    (if target.eligibility.incentives.covers source.eligibility.incentives then []
      else [.incentive]) ++
    (if s.startTime < t.startTime ∨ t.endTime < s.endTime then [.timeWindow] else [])

end SessionShape

end PrisonVisits
