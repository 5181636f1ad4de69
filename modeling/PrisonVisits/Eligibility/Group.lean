import PrisonVisits.Eligibility.Location
import PrisonVisits.Eligibility.Vocabulary

/-! Hierarchy groups: named lists of locations, categories or incentive levels that a prison's
session templates share. A group holds entries of one kind. -/

namespace PrisonVisits

/-- The name of a template, a group, an application or a booking. It never changes and has no
structure. -/
abbrev Reference := String

inductive GroupKind where
  | location | category | incentive
deriving DecidableEq

def GroupKind.text : GroupKind → String
  | location => "location"
  | category => "category"
  | incentive => "incentive"

inductive GroupEntries where
  | locations (entries : List LocationPath)
  | categories (entries : List Category)
  | incentives (entries : List IncentiveLevel)
deriving DecidableEq

namespace GroupEntries

def kind : GroupEntries → GroupKind
  | locations _ => .location
  | categories _ => .category
  | incentives _ => .incentive

def size : GroupEntries → Nat
  | locations entries => entries.length
  | categories entries => entries.length
  | incentives entries => entries.length

end GroupEntries

structure HierarchyGroup where
  reference : Reference
  prisonCode : String
  name : String
  entries : GroupEntries
deriving DecidableEq

end PrisonVisits
