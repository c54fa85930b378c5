/-
Rules: what a grammar highlights.

A keyword is one pattern. A range runs from a match of its opening pattern to the next match of its closing one, or to
the end of the line; with the flag `span` it may stay open there and go on in the lines below. A rule with a parent is
looked for only inside the matches of that parent, which has it among its children once a grammar is made of the rules.
-/
import Linewise.Notice
import Linewise.Regex.Pattern
import Linewise.Rule.Flags

namespace Linewise

open Regex (Pattern)

/-- what a rule matches -/
inductive Shape where
  | keyword (pattern : Pattern)
  | range (opening closing : Pattern)
  deriving DecidableEq, Repr

/-- the style of a rule that has none of its own -/
def defaultStyle : Nat := 0

/-- a rule of a grammar -/
structure Rule where
  id : RuleId
  name : String
  shape : Shape
  flags : RuleFlags
  parent : RuleId := .none
  children : List RuleId := []
  style : Nat
  deriving DecidableEq, Repr

namespace Rule

/-- a rule that matches one pattern -/
def keyword (id : RuleId) (name : String) (source : Text) (flags : RuleFlags) (style : Nat) : Rule :=
  { id, name, flags, style, shape := .keyword (.compile source (flags.contains .ignoreCase)) }

/-- a rule that matches from one pattern to another -/
def range (id : RuleId) (name : String) (opening closing : Text) (flags : RuleFlags) (style : Nat) : Rule :=
  let ignoreCase := flags.contains .ignoreCase
  { id, name, flags, style, shape := .range (.compile opening ignoreCase) (.compile closing ignoreCase) }

/-- the patterns of a rule, in order -/
def patterns (rule : Rule) : List Pattern :=
  match rule.shape with
  | .keyword pattern => [pattern]
  | .range opening closing => [opening, closing]

/-- whether every pattern of the rule can match -/
def isValid (rule : Rule) : Bool := rule.patterns.all (·.isValid)

/-- whether the rule is looked for in whole lines -/
def isTopLevel (rule : Rule) : Bool := rule.parent.isNone

/-- whether a match left open at the end of a line goes on in the next one -/
def spansLines (rule : Rule) : Bool :=
  match rule.shape with
  | .keyword _ => false
  | .range .. => rule.flags.contains .span

/-- warnings about patterns without meaning -/
def notices (rule : Rule) : List Notice :=
  (rule.patterns.filter (·.isBroken)).map fun pattern => .brokenRule rule.name pattern.source

end Rule

end Linewise
