/-
Overlap resolution.

Regions are visited in order. A region inside a kept one stays only if that one is its parent and holds all of it; a
region outside of all kept ones stays only if it has no parent.
-/
import Linewise.Region.Basic

namespace Linewise

namespace Region

/-- whether a region may stay, given the innermost kept region it begins in -/
def fits (r : Region) : Option Region → Bool
  | none => !r.isNested
  | some outer => r.parent == outer.rule && r.stop ≤ outer.stop

/-- the regions that stay, given the kept regions around the current place, innermost first -/
def keep : List Region → List Region → List Region
  | _, [] => []
  | enclosing, r :: rest =>
    let enclosing := enclosing.dropWhile (·.stop ≤ r.position)
    if r.fits enclosing.head? then r :: keep (r :: enclosing) rest else keep enclosing rest

end Region

/-- drop the regions that overlap an earlier one without being nested in it -/
def RegionSet.removeOverlaps (set : RegionSet) : RegionSet :=
  { set with regions := Region.keep [] set.regions }

end Linewise
