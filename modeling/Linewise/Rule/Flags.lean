/-
Flags of a rule.
-/
namespace Linewise

/-- what holds of a rule beyond its patterns -/
structure RuleFlags where
  bits : UInt32
  deriving DecidableEq, Repr, Inhabited

namespace RuleFlags

/-- no flag -/
def none : RuleFlags := ⟨0⟩

/-- a range may stay open at the end of a line -/
def span : RuleFlags := ⟨1⟩

/-- lines that begin inside a match keep their indentation -/
def noIndent : RuleFlags := ⟨2⟩

/-- the patterns ignore case -/
def ignoreCase : RuleFlags := ⟨4⟩

/-- a match is a comment, and delimiters in it are counted apart -/
def comment : RuleFlags := ⟨8⟩

/-- whether all flags of `other` are set -/
def contains (flags other : RuleFlags) : Bool := flags.bits &&& other.bits == other.bits

/-- the flags of either -/
def union (flags other : RuleFlags) : RuleFlags := ⟨flags.bits ||| other.bits⟩

/-- the flags without those of `other` -/
def diff (flags other : RuleFlags) : RuleFlags := ⟨flags.bits &&& ~~~other.bits⟩

/-- set or clear the flags of `other` -/
def set (flags other : RuleFlags) (on : Bool) : RuleFlags :=
  if on then flags.union other else flags.diff other

end RuleFlags

end Linewise
