/-
Which lines indentation and folding pass over.
-/
import Linewise.Region.Basic

namespace Linewise

/-- tells from a line and its regions whether it is passed over -/
abbrev IgnoreRule := Text → RegionSet → Bool

/-- whether the first character that is neither space nor tab is in a region with the flags -/
def RegionSet.beginsIn (set : RegionSet) (text : Text) (flags : RuleFlags) : Bool :=
  (Text.firstContent? text).any fun position => set.hasFlagAt position flags

/-- blank lines, and lines that begin in a comment or in a region that keeps its indentation -/
def blankOrComment : IgnoreRule := fun text set =>
  (Text.firstContent? text).isNone || set.beginsIn text .comment || set.beginsIn text .noIndent

end Linewise
