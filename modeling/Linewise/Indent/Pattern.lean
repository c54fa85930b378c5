/-
Indent patterns: tests on a line and the lines above it, and what follows for the indentation of the line.
-/
import Linewise.Notice
import Linewise.Regex.Pattern

namespace Linewise

/-- what a pattern does to the units of the line above -/
inductive IndentKind where
  | increment
  | decrement
  | decrementAll
  deriving DecidableEq, Repr

/-- a test of the line so many lines above, lines that are passed over not counted -/
structure IndentTest where
  pattern : Regex.Pattern
  lookBack : Nat
  deriving DecidableEq, Repr

namespace IndentTest

/-- a test of the line at `offset`; offsets below the line count as the line itself -/
def compile (source : Text) (offset : Int) (ignoreCase : Bool) : IndentTest :=
  { pattern := .compile source ignoreCase, lookBack := (-offset).toNat }

/-- whether a line passes -/
def accepts (test : IndentTest) (text : Text) : Bool := test.pattern.accepts text

/-- a warning about a pattern without meaning -/
def notices (test : IndentTest) : List Notice :=
  if test.pattern.isBroken then [.brokenIndentTest test.pattern.source] else []

end IndentTest

/-- tests that must all pass, and their effect -/
structure IndentPattern where
  name : String
  kind : IndentKind
  scale : Nat
  tests : List IndentTest
  deriving DecidableEq, Repr

namespace IndentPattern

/-- the units of a line, from those of the line above -/
def apply (p : IndentPattern) (above : Nat) : Nat :=
  match p.kind with
  | .increment => above + p.scale
  | .decrement => above - p.scale
  | .decrementAll => 0

/-- warnings about patterns without meaning -/
def notices (p : IndentPattern) : List Notice := p.tests.flatMap (·.notices)

end IndentPattern

end Linewise
