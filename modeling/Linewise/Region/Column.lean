/-
Styled spans: the regions of a line in character columns, for drawing.
-/
import Linewise.Region.Basic

namespace Linewise

/-- a part of a line to be drawn in a style, in characters -/
structure StyledSpan where
  start : Nat
  stop : Nat
  style : Nat
  rule : RuleId
  deriving DecidableEq, Repr

/-- the span of a region; one that is empty or does not fall on character boundaries of the text has none -/
def Region.toSpan? (text : Text) (r : Region) : Option StyledSpan :=
  if r.length = 0 then none
  else
    match Text.cut? r.position text with
    | none => none
    | some (front, back) =>
      match Text.cut? r.length back with
      | none => none
      | some (inner, _) =>
        some { start := front.length, stop := front.length + inner.length, style := r.style, rule := r.rule }

/-- the spans of a line -/
def RegionSet.spans (set : RegionSet) (text : Text) : List StyledSpan :=
  set.regions.filterMap (·.toSpan? text)

end Linewise
