/-
A pattern: its source and the regular expression read from it.

A pattern that is empty or has no meaning is kept with no expression and matches nothing; only the latter is worth a
warning.
-/
import Linewise.Regex.Parser
import Linewise.Regex.Search

namespace Linewise.Regex

/-- a source with the expression read from it -/
structure Pattern where
  source : Text
  expr : Option Expr
  deriving DecidableEq, Repr

namespace Pattern

/-- read a source; the empty one has no expression -/
def compile (source : Text) (ignoreCase : Bool) : Pattern :=
  ⟨source, if source.isEmpty then none else parse? source ignoreCase⟩

/-- a pattern with no source -/
def none : Pattern := ⟨[], .none⟩

/-- whether the pattern can match -/
def isValid (p : Pattern) : Bool := p.expr.isSome

/-- whether there is a source, but one without meaning -/
def isBroken (p : Pattern) : Bool := !p.source.isEmpty && p.expr.isNone

/-- whether the text holds a match -/
def accepts (p : Pattern) (text : Text) : Bool := p.expr.any (·.accepts text)

/-- the matches of a text from left to right that are not empty -/
def hits (p : Pattern) (text : Text) : List Hit :=
  match p.expr with
  | .none => []
  | some e => (e.hits text).filter fun hit => !hit.isEmpty

end Pattern

end Linewise.Regex
