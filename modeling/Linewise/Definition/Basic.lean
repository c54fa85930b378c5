/-
Grammar definitions: grammars as they are written down, with names for styles and parents.
-/
import Linewise.Data.Node
import Linewise.Indent.Pattern
import Linewise.Indent.Settings
import Linewise.Rule.Flags

namespace Linewise

/-- whether a rule is a keyword or a range -/
inductive RuleKind where
  | keyword
  | range
  deriving DecidableEq, Repr

/-- a rule as written -/
structure RuleDefinition where
  name : String
  kind : Option RuleKind := none
  regex : Option Text := none
  opening : Option Text := none
  closing : Option Text := none
  style : Option String := none
  parent : Option String := none
  flags : List RuleFlags := []
  deriving DecidableEq, Repr

/-- the kind written, or the one that the patterns suggest -/
def RuleDefinition.resolvedKind (d : RuleDefinition) : RuleKind :=
  d.kind.getD (if d.opening.isSome || d.closing.isSome then .range else .keyword)

/-- a delimiter as written -/
structure DelimiterDefinition where
  opening : Text
  closing : Text
  literal : Bool := false
  combined : Option Text := none
  deriving DecidableEq, Repr

/-- an indent test as written -/
structure IndentTestDefinition where
  regex : Text
  offset : Int := 0
  ignoreCase : Bool := false
  deriving DecidableEq, Repr

/-- an indent pattern as written -/
structure IndentDefinition where
  name : String
  kind : IndentKind
  scale : Nat := 1
  tests : List IndentTestDefinition := []
  deriving DecidableEq, Repr

/-- a grammar as written -/
structure GrammarDefinition where
  name : Option String := none
  styles : List String := []
  rules : List RuleDefinition := []
  delimiters : List DelimiterDefinition := []
  indents : List IndentDefinition := []
  deriving DecidableEq, Repr

end Linewise
