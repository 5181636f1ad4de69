import PrisonVisits.Eligibility.Group
import PrisonVisits.Eligibility.Restriction

/-! Who may come to a session. The groups of a template restrict three dimensions, and a prisoner
must be permitted in each of them; within a dimension one entry of one group is enough. -/

namespace PrisonVisits

/-- What decides a prisoner's eligibility. -/
structure PrisonerContext where
  prisonerId : String
  prisonCode : String
  category : Option Category
  incentive : Option IncentiveLevel
  location : Option LocationPath
deriving DecidableEq

structure Eligibility where
  locations : Restriction LocationPath
  categories : Restriction Category
  incentives : Restriction IncentiveLevel
deriving DecidableEq

namespace GroupEntries

def locations? : GroupEntries → Option (List LocationPath)
  | locations entries => some entries
  | _ => none

def categories? : GroupEntries → Option (List Category)
  | categories entries => some entries
  | _ => none

def incentives? : GroupEntries → Option (List IncentiveLevel)
  | incentives entries => some entries
  | _ => none

end GroupEntries

namespace Eligibility

/-- Each group restricts the dimension of its kind. -/
def ofEntries (groups : List GroupEntries) : Eligibility where
  locations := ⟨groups.filterMap GroupEntries.locations?⟩
  categories := ⟨groups.filterMap GroupEntries.categories?⟩
  incentives := ⟨groups.filterMap GroupEntries.incentives?⟩

def isUnrestricted (e : Eligibility) : Bool :=
  e.locations.isOpen && e.categories.isOpen && e.incentives.isOpen

/-- The dimensions that refuse a prisoner. -/
def refusing (e : Eligibility) (p : PrisonerContext) : List GroupKind :=
  (if e.locations.permits p.location then [] else [.location]) ++
    (if e.categories.permits p.category then [] else [.category]) ++
    (if e.incentives.permits p.incentive then [] else [.incentive])

def allows (e : Eligibility) (p : PrisonerContext) : Bool := (e.refusing p).isEmpty

def intersects (a b : Eligibility) : Bool :=
  a.locations.intersects b.locations && a.categories.intersects b.categories &&
    a.incentives.intersects b.incentives

end Eligibility

end PrisonVisits
