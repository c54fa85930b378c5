/-
Compiling a definition into a grammar.

Rules are numbered by single bits in the order written. A rule with an unknown parent is looked for in whole lines, one
with a style that is not declared has the default style, and a pattern without meaning matches nothing; each is worth a
warning. Styles are numbered on the way, also if the definition turns out to be faulty.
-/
import Linewise.Definition.Basic
import Linewise.Grammar.Basic
import Linewise.Style

namespace Linewise

/-- why a grammar cannot be loaded -/
inductive LoadError where
  | malformed
  | unreadable
  | missingField (owner field : String)
  | duplicateName (rule : String)
  | tooManyRules (count : Nat)
  | rejected (error : GrammarError)
  deriving DecidableEq, Repr

/-- the wording of an error, if it has one of its own -/
def LoadError.message? : LoadError → Option String
  | malformed | unreadable => none
  | missingField owner field => some s!"'{owner}': missing required field: {field}"
  | duplicateName rule => some s!"duplicate pattern name '{rule}'"
  | tooManyRules count => some s!"grammar has {count} patterns, at most 64 are supported"
  | rejected error => some error.message

/-- the outcome of compiling something: it, or why not; the style table and the notices stand in either case -/
structure Compiled (α : Type) where
  styles : StyleTable
  notices : List Notice := []
  result : Except LoadError α

namespace RuleDefinition

/-- all flags of the rule -/
def allFlags (d : RuleDefinition) : RuleFlags := d.flags.foldl RuleFlags.union .none

/-- the rule with an id and a style, its parent left aside -/
def toRule (d : RuleDefinition) (id : RuleId) (style : Nat) : Except LoadError Rule :=
  match d.resolvedKind with
  | .keyword =>
    match d.regex with
    | none => .error (.missingField d.name "regex")
    | some regex => .ok (.keyword id d.name regex d.allFlags style)
  | .range =>
    match d.opening, d.closing with
    | none, _ => .error (.missingField d.name "begin")
    | some _, none => .error (.missingField d.name "end")
    | some opening, some closing => .ok (.range id d.name opening closing d.allFlags style)

end RuleDefinition

namespace GrammarDefinition

/-- the id of the rule that a rule with the given id names as its parent: any other rule of the definition -/
def parentId? (d : GrammarDefinition) (id : RuleId) (parent : String) : Option RuleId :=
  ((d.rules.findIdx? fun rule => rule.name == parent).map RuleId.ofIndex).filter fun found => found != id

/-- the style of a rule, with a warning if it is not declared -/
def styleOf (d : GrammarDefinition) (name : String) (rule : RuleDefinition) (styles : StyleTable) :
    Nat × StyleTable × List Notice :=
  match rule.style with
  | none => (defaultStyle, styles, [])
  | some style =>
    match styles.resolve d.styles style with
    | (some id, styles) => (id, styles, [])
    | (none, styles) => (defaultStyle, styles, [.undeclaredStyle name rule.name style])

/-- the parent of a rule, with a warning if it is no other rule -/
def parentOf (d : GrammarDefinition) (name : String) (id : RuleId) (rule : RuleDefinition) : RuleId × List Notice :=
  match rule.parent with
  | none => (.none, [])
  | some parent =>
    match d.parentId? id parent with
    | some found => (found, [])
    | none => (.none, [.unknownParent name rule.name parent])

/-- compile rules, the first of them with bit `index` -/
def compileRules (d : GrammarDefinition) (name : String) (styles : StyleTable) :
    Nat → List RuleDefinition → Compiled (List Rule)
  | _, [] => { styles, result := .ok [] }
  | index, definition :: definitions =>
    let id := RuleId.ofIndex index
    let (style, styles, styleNotices) := d.styleOf name definition styles
    match definition.toRule id style with
    | .error error => { styles, notices := styleNotices, result := .error error }
    | .ok rule =>
      let (parent, parentNotices) := d.parentOf name id definition
      let others := d.compileRules name styles (index + 1) definitions
      { styles := others.styles
        notices := styleNotices ++ rule.notices ++ parentNotices ++ others.notices
        result := others.result.map ({ rule with parent } :: ·) }

/-- the first name that a rule has in common with an earlier one -/
def repeatedName? : List String → List RuleDefinition → Option String
  | _, [] => none
  | used, rule :: rules => if used.contains rule.name then some rule.name else repeatedName? (rule.name :: used) rules

end GrammarDefinition

namespace DelimiterDefinition

/-- compile a delimiter -/
def toDelimiter (d : DelimiterDefinition) : Delimiter :=
  if d.literal then .literal d.opening d.closing else .ofPatterns d.opening d.closing d.combined

/-- warnings about patterns without meaning, and about a delimiter that counts nothing -/
def notices (d : DelimiterDefinition) : List Notice :=
  d.toDelimiter.notices ++ if d.toDelimiter.isValid then [] else [.deadDelimiter d.opening d.closing]

end DelimiterDefinition

namespace IndentDefinition

/-- compile an indent test -/
def toTest (d : IndentTestDefinition) : IndentTest := .compile d.regex d.offset d.ignoreCase

/-- compile an indent pattern -/
def toPattern (d : IndentDefinition) : IndentPattern :=
  { name := d.name, kind := d.kind, scale := d.scale, tests := d.tests.map toTest }

/-- warnings about tests of lines below, and about patterns without meaning -/
def notices (d : IndentDefinition) (grammar : String) : List Notice :=
  d.tests.flatMap fun test =>
    (if 0 < test.offset then [.looksAhead grammar d.name test.offset] else []) ++ (toTest test).notices

end IndentDefinition

namespace GrammarDefinition

/-- put compiled rules, delimiters and indent patterns together -/
def assemble (d : GrammarDefinition) (name : String) (compiled : Compiled (List Rule)) : Compiled Grammar :=
  match compiled.result with
  | .error error => { compiled with result := .error error }
  | .ok rules =>
    let notices := compiled.notices ++ d.delimiters.flatMap (·.notices) ++ d.indents.flatMap (·.notices name)
    match Grammar.build name rules (d.delimiters.map (·.toDelimiter)) (d.indents.map (·.toPattern)) with
    | .error error => { styles := compiled.styles, notices, result := .error (.rejected error) }
    | .ok grammar =>
      { styles := compiled.styles
        notices := notices ++ Grammar.parentNotices rules ++
          [.compiled name grammar.rules.length grammar.delimiters.length grammar.indents.length]
        result := .ok grammar }

/-- compile a definition -/
def compile (d : GrammarDefinition) (styles : StyleTable) : Compiled Grammar :=
  match d.name with
  | none | some "" => { styles, result := .error (.missingField "grammar" "name") }
  | some name =>
    if RuleId.capacity < d.rules.length then { styles, result := .error (.tooManyRules d.rules.length) }
    else
      match repeatedName? [] d.rules with
      | some rule => { styles, result := .error (.duplicateName rule) }
      | none => d.assemble name (d.compileRules name (styles.declare d.styles) 0 d.rules)

end GrammarDefinition

end Linewise
