/-
Membership in a sorted table of closed code point ranges.
-/
import Linewise.Text.Basic

namespace Linewise.Text

/-- whether `n` lies in a range; the search stops at the first range that begins above `n` -/
def inRanges : List (Nat × Nat) → Nat → Bool
  | [], _ => false
  | (low, high) :: ranges, n => if n < low then false else n ≤ high || inRanges ranges n

end Linewise.Text
