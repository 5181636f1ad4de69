import Std.Data.ExtTreeMap
import Std.Data.ExtTreeSet

/-! Indexes. A row index keeps, for each key, the ids of the rows that have it; a key without rows
is not kept. A name index does the same for names, in the order in which they came. -/

namespace PrisonVisits

variable {κ : Type} [Ord κ] [Std.TransOrd κ]

/-- Row ids by key, the ids of a key in ascending order. -/
abbrev RowIndex (κ : Type) [Ord κ] := Std.ExtTreeMap κ (Std.ExtTreeSet UInt64)

namespace RowIndex

def ids (index : RowIndex κ) (key : κ) : List UInt64 :=
  match index[key]? with
  | some rows => rows.toList
  | none => []

def add (index : RowIndex κ) (key : κ) (id : UInt64) : RowIndex κ :=
  index.insert key ((index[key]?.getD ∅).insert id)

def remove (index : RowIndex κ) (key : κ) (id : UInt64) : RowIndex κ :=
  match index[key]? with
  | none => index
  | some rows =>
    let rows := rows.erase id
    if rows.isEmpty then index.erase key else index.insert key rows

/-- Moves a row from one key to another. Nothing changes if the keys are the same. -/
def move [DecidableEq κ] (index : RowIndex κ) (old new : κ) (id : UInt64) : RowIndex κ :=
  if old = new then index else (index.add new id).remove old id

end RowIndex

/-- Names by key, the names of a key in the order in which they were first added. -/
abbrev NameIndex (κ : Type) [Ord κ] := Std.ExtTreeMap κ (List String)

namespace NameIndex

def names (index : NameIndex κ) (key : κ) : List String := index[key]?.getD []

def add (index : NameIndex κ) (key : κ) (name : String) : NameIndex κ :=
  let names := index.names key
  if names.contains name then index else index.insert key (names ++ [name])

def remove (index : NameIndex κ) (key : κ) (name : String) : NameIndex κ :=
  match index[key]? with
  | none => index
  | some names =>
    let names := names.filter (· != name)
    if names.isEmpty then index.erase key else index.insert key names

end NameIndex

end PrisonVisits
