import PrisonVisits.Eligibility.Location
import PrisonVisits.Eligibility.Vocabulary

/-! Restrictions on one dimension of eligibility. An entry stands for itself and for everything that
it generalizes: a wing stands for its cells, a category for itself alone. A restriction without
groups is open and permits everybody, also a prisoner who has no value. One with groups permits who
falls under an entry of any of them, so a restriction whose groups are all empty permits nobody. -/

namespace PrisonVisits

/-- Values some of which stand for others. -/
class Hierarchy (α : Type) where
  generalizes : α → α → Bool

namespace Hierarchy

variable {α : Type} [Hierarchy α]

/-- One of the two generalizes the other. -/
def compatible (x y : α) : Bool := generalizes x y || generalizes y x

/-- The candidate falls under one of the entries. -/
def isUnder (candidate : α) (entries : List α) : Bool :=
  entries.any fun entry => generalizes entry candidate

/-- Some entry of the one list is compatible with some entry of the other. -/
def collide (a b : List α) : Bool := a.any fun x => b.any fun y => compatible x y

end Hierarchy

/-- A path generalizes the paths that begin with its levels. -/
instance : Hierarchy LocationPath := ⟨fun wide narrow => wide.levels.isPrefixOf narrow.levels⟩

instance : Hierarchy Category := ⟨fun a b => a == b⟩

instance : Hierarchy IncentiveLevel := ⟨fun a b => a == b⟩

/-- The entries of each group that restricts a dimension. -/
structure Restriction (α : Type) where
  groups : List (List α)
deriving DecidableEq

namespace Restriction

variable {α : Type} [Hierarchy α]

def unrestricted : Restriction α := ⟨[]⟩

def isOpen (r : Restriction α) : Bool := r.groups.isEmpty

def entries (r : Restriction α) : List α := r.groups.flatten

def permits (r : Restriction α) (candidate : Option α) : Bool :=
  r.isOpen ||
    match candidate with
    | some c => r.groups.any (Hierarchy.isUnder c)
    | none => false

/-- Some entry of the one restriction meets some entry of the other; an open restriction meets
every other. -/
def intersects (a b : Restriction α) : Bool :=
  a.isOpen || b.isOpen || Hierarchy.collide a.entries b.entries

/-- Every entry of the narrower restriction lies under an entry of the wider one. An open
restriction covers all others and only an open one covers it. -/
def covers (wider narrower : Restriction α) : Bool :=
  wider.isOpen ||
    !narrower.isOpen && narrower.entries.all fun n => Hierarchy.isUnder n wider.entries

end Restriction

end PrisonVisits
