/-
Regions: the parts of a line that rules claim.

`RegionSet` keeps the regions of a line in order, each once, with the range that is open when the line begins and the
one that is open when it ends. A region comes before another if it begins earlier; at the same place a region without
a parent comes first, then the longer one.
-/
import Linewise.Rule.Basic

namespace Linewise

/-- a match of a rule in a line, in bytes -/
structure Region where
  position : Nat
  length : Nat
  rule : RuleId
  parent : RuleId
  flags : RuleFlags
  style : Nat
  deriving DecidableEq, Repr

namespace Region

/-- the region of a rule from `position` on -/
def ofRule (rule : Rule) (position length : Nat) : Region :=
  { position, length, rule := rule.id, parent := rule.parent, flags := rule.flags, style := rule.style }

/-- the place behind the region -/
def stop (r : Region) : Nat := r.position + r.length

/-- whether the byte at `position` is in the region -/
def covers (r : Region) (position : Nat) : Bool := r.position ≤ position && position < r.stop

/-- whether the region is looked for inside another one only -/
def isNested (r : Region) : Bool := !r.parent.isNone

/-- the order of the regions of a line -/
def order (a b : Region) : Ordering :=
  (compare a.position b.position)
    |>.then (compare a.isNested b.isNested)
    |>.then (compare b.length a.length)
    |>.then (compare a.rule.bits b.rule.bits)
    |>.then (compare a.parent.bits b.parent.bits)

/-- put a region at its place among ordered ones, instead of one that has the same place -/
def place (r : Region) : List Region → List Region
  | [] => [r]
  | s :: rest =>
    match r.order s with
    | .lt => r :: s :: rest
    | .eq => r :: rest
    | .gt => s :: place r rest

/-- regions in order; of two with the same place the earlier in the list stays -/
def sort (regions : List Region) : List Region := regions.foldr place []

end Region

/-- the regions of a line in order, with the ranges open at its ends -/
structure RegionSet where
  regions : List Region := []
  incoming : RuleId := .none
  outgoing : RuleId := .none
  deriving DecidableEq, Repr, Inhabited

namespace RegionSet

/-- the set of the given regions -/
def ofList (regions : List Region) : RegionSet := { regions := Region.sort regions }

/-- whether the byte at `position` is in a region that has the flags -/
def hasFlagAt (set : RegionSet) (position : Nat) (flags : RuleFlags) : Bool :=
  (set.regions.takeWhile fun r => r.position ≤ position).any fun r => r.covers position && r.flags.contains flags

/-- whether the byte at `position` is in a comment -/
def isCommented (set : RegionSet) (position : Nat) : Bool := set.hasFlagAt position .comment

/-- the last region in order that holds the byte at `position` -/
def regionAt? (set : RegionSet) (position : Nat) : Option Region :=
  ((set.regions.takeWhile fun r => r.position ≤ position).filter (·.covers position)).getLast?

end RegionSet

end Linewise
