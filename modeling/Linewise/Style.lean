/-
Style tables: names of styles and their numbers.

Styles are numbered from 1 in the order in which their names are first met; 0 is the default style and has no name. A table
keeps the numbers by name and the names by number, each apart from the other: a number is looked up in the one, a name in the
other, and only numbering a new name writes both. Numbers have no greatest one here; 32 bits hold those of the first 2³² − 1
names.
-/
import Linewise.Rule.Basic

namespace Linewise

/-- the number of each name, and the names in the order of their numbers -/
structure StyleTable where
  ids : List (String × Nat) := []
  names : List String := []
  deriving DecidableEq, Repr, Inhabited

namespace StyleTable

/-- the number of a known style -/
def id? (t : StyleTable) (name : String) : Option Nat := t.ids.lookup name

/-- the name of a number -/
def name? (t : StyleTable) (id : Nat) : Option String := if id = 0 then none else t.names[id - 1]?

/-- the number of a style, a new one if the style is not known -/
def intern (t : StyleTable) (name : String) : Nat × StyleTable :=
  match t.id? name with
  | some id => (id, t)
  | none =>
    let id := t.names.length + 1
    (id, { ids := (name, id) :: t.ids, names := t.names ++ [name] })

/-- number the styles that a grammar declares -/
def declare (t : StyleTable) (declared : List String) : StyleTable :=
  declared.foldl (fun t name => (t.intern name).2) t

/-- the number of a style used in a grammar; none if the grammar declares styles and this is not one of them -/
def resolve (t : StyleTable) (declared : List String) (name : String) : Option Nat × StyleTable :=
  if declared.isEmpty || declared.contains name then
    let (id, t) := t.intern name
    (some id, t)
  else (none, t)

/-- how many styles have a number -/
def size (t : StyleTable) : Nat := t.names.length

/-- whether no style has a number -/
def isEmpty (t : StyleTable) : Bool := t.names.isEmpty

/-- numbers and names in order -/
def toList (t : StyleTable) : List (Nat × String) := (List.range' 1 t.size).zip t.names

end StyleTable

end Linewise
