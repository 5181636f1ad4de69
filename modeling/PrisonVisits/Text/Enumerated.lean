/-! Types of plain words. Each word has a name and a place, which is that of its declaration. -/

namespace PrisonVisits

/-- A type of finitely many words, listed with their names in the order of their declaration. -/
class Enumerated (α : Type) extends BEq α where
  names : List (String × α)

namespace Enumerated

variable {α : Type} [Enumerated α]

def words : List α := names.map Prod.snd

def ofName? (s : String) : Option α := (names.find? fun entry => entry.1 == s).map Prod.snd

def name (a : α) : String := ((names.find? fun entry => entry.2 == a).map Prod.fst).getD ""

def place (a : α) : Nat := words.idxOf a

end Enumerated

end PrisonVisits
