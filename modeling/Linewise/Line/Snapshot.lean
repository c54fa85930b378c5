/-
Snapshots: the lines hidden behind a collapsed line.

A snapshot is a tree. The one kept with a collapsed line has the hidden lines as children; a child that was collapsed
itself has its own hidden lines as children. `carried` notes the range that was open before the first hidden line and
the one open after the last, as far as known.
-/
import Linewise.Balance.Pair
import Linewise.Rule.Id
import Linewise.Text.Basic

namespace Linewise

/-- the ranges open before and after a stretch of lines -/
structure Carried where
  incoming : RuleId
  outgoing : RuleId
  deriving DecidableEq, Repr, Inhabited

/-- a line with the lines hidden behind it; the tallies of a child are those of its line and all it hides, the tallies
of the snapshot kept with a line are those of the hidden lines only -/
structure Snapshot where
  text : Text := []
  collapsed : Bool := false
  tallies : Tallies := {}
  children : List Snapshot := []
  carried : Option Carried := none
  deriving Inhabited

namespace Snapshot

mutual

/-- how many lines are hidden -/
def hiddenCount : Snapshot → Nat
  | ⟨_, _, _, children, _⟩ => countAll children

/-- how many lines the snapshots hold, their own included -/
def countAll : List Snapshot → Nat
  | [] => 0
  | child :: children => 1 + child.hiddenCount + countAll children

end

mutual

/-- the texts of all hidden lines in order -/
def hiddenTexts : Snapshot → List Text
  | ⟨_, _, _, children, _⟩ => textsOf children

/-- the texts of the snapshots and of all they hide, in order -/
def textsOf : List Snapshot → List Text
  | [] => []
  | child :: children => child.text :: child.hiddenTexts ++ textsOf children

end

/-- the tallies of the snapshots one after the other -/
def combined (children : List Snapshot) : Tallies :=
  children.foldl (fun total child => total + child.tallies) {}

/-- the snapshot to keep with a hidden line that comes back collapsed -/
def reattached (child : Snapshot) : Snapshot :=
  { child with collapsed := true, tallies := combined child.children, carried := none }

mutual

/-- the lines that come back when a hidden line does: it alone, with its own snapshot if it was collapsed, or, if
`deep`, with all that it hides -/
def restored (deep : Bool) : Snapshot → List (Text × Option Snapshot)
  | ⟨text, collapsed, tallies, children, carried⟩ =>
    if !collapsed then [(text, none)]
    else if deep then (text, none) :: restoredAll deep children
    else [(text, some (reattached ⟨text, collapsed, tallies, children, carried⟩))]

/-- the lines that come back with hidden lines, in order -/
def restoredAll (deep : Bool) : List Snapshot → List (Text × Option Snapshot)
  | [] => []
  | child :: children => child.restored deep ++ restoredAll deep children

end

end Snapshot

end Linewise
