/-
Grammars: rules, delimiters and indent patterns of one kind of document.

When a grammar is made, each rule that has a parent is put on a list under the id of its parent, and then every rule takes
the list under its own id as its children.
-/
import Linewise.Balance.Delimiter
import Linewise.Indent.Pattern
import Linewise.Rule.Basic

namespace Linewise

/-- the rules, delimiters and indent patterns of one kind of document -/
structure Grammar where
  name : String
  rules : List Rule
  delimiters : List Delimiter
  indents : List IndentPattern
  deriving DecidableEq, Repr

/-- why rules make no grammar -/
inductive GrammarError where
  | invalidId (rule : String) (id : RuleId)
  | duplicateId (id : RuleId)
  | tooManyRules (count : Nat)
  deriving DecidableEq, Repr

/-- the wording of an error -/
def GrammarError.message : GrammarError → String
  | invalidId rule id => s!"pattern '{rule}' has id {id.hex}, which is not a single bit"
  | duplicateId id => s!"duplicate pattern id {id.hex}"
  | tooManyRules count => s!"grammar has {count} patterns, at most 64 are supported"

namespace Grammar

/-- the rule with an id -/
def rule? (g : Grammar) (id : RuleId) : Option Rule := g.rules.find? fun rule => rule.id == id

/-- the rules that are looked for in whole lines, in order -/
def topLevel (g : Grammar) : List Rule := g.rules.filter (·.isTopLevel)

/-- the rules that are looked for inside the matches of a rule, in order -/
def children (g : Grammar) (id : RuleId) : List Rule :=
  ((g.rule? id).elim [] (·.children)).filterMap g.rule?

/-- the style of a rule -/
def style? (g : Grammar) (id : RuleId) : Option Nat := (g.rule? id).map (·.style)

/-- the first rule whose id is no single bit or was used before -/
def idError? : List RuleId → List Rule → Option GrammarError
  | _, [] => none
  | used, rule :: rules =>
    if !rule.id.isSingle then some (.invalidId rule.name rule.id)
    else if used.contains rule.id then some (.duplicateId rule.id)
    else idError? (rule.id :: used) rules

/-- whether the parent of a rule is none or another of the rules -/
def hasParent (rules : List Rule) (rule : Rule) : Bool :=
  rule.parent.isNone || (rule.parent != rule.id && rules.any fun other => other.id == rule.parent)

/-- a rule whose parent is no other rule is looked for in whole lines -/
def adopt (rules : List Rule) (rule : Rule) : Rule :=
  if hasParent rules rule then rule else { rule with parent := .none }

/-- put a rule under the id of its parent, behind the rules that are there -/
def pushChild (table : List (RuleId × List RuleId)) (rule : Rule) : List (RuleId × List RuleId) :=
  if rule.parent.isNone then table
  else (rule.parent, (table.lookup rule.parent).getD [] ++ [rule.id]) :: table

/-- every rule takes what stands under its id as its children -/
def takeChildren : List (RuleId × List RuleId) → List Rule → List Rule
  | _, [] => []
  | table, rule :: rules =>
    let children := (table.lookup rule.id).getD []
    { rule with children } :: takeChildren (table.filter fun (id, _) => id != rule.id) rules

/-- a grammar of rules with distinct ids -/
def build (name : String) (rules : List Rule) (delimiters : List Delimiter) (indents : List IndentPattern) :
    Except GrammarError Grammar :=
  if RuleId.capacity < rules.length then .error (.tooManyRules rules.length)
  else
    match idError? [] rules with
    | some error => .error error
    | none =>
      let rules := rules.map (adopt rules)
      .ok { name, rules := takeChildren (rules.foldl pushChild []) rules, delimiters, indents }

/-- warnings about parents that are no other rule -/
def parentNotices (rules : List Rule) : List Notice :=
  (rules.filter fun rule => !hasParent rules rule).map fun rule => .danglingParent rule.name rule.parent

end Grammar

end Linewise
