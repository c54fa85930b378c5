/-
Notices: what the library tells its log while it works. Each kind of notice is a constructor, and its wording is
`Notice.message`.
-/
import Linewise.Line.Id
import Linewise.Rule.Id
import Linewise.Text.Basic

namespace Linewise

/-- how important a notice is -/
inductive Level where
  | warn
  | debug
  | trace
  deriving DecidableEq, Repr

/-- something worth telling the log -/
inductive Notice where
  /-- a pattern of a rule has no meaning -/
  | brokenRule (rule : String) (source : Text)
  /-- a pattern of a delimiter has no meaning -/
  | brokenDelimiter (source : Text)
  /-- a pattern of an indent test has no meaning -/
  | brokenIndentTest (source : Text)
  /-- the parent of a rule is no other rule of the grammar -/
  | danglingParent (rule : String) (parent : RuleId)
  /-- the parent that a definition names is no other rule of it -/
  | unknownParent (grammar rule parent : String)
  /-- a definition lists its styles, and a rule uses another one -/
  | undeclaredStyle (grammar rule style : String)
  /-- a delimiter counts nothing -/
  | deadDelimiter (opening closing : Text)
  /-- an indent test asks for a line below its own -/
  | looksAhead (grammar pattern : String) (lines : Int)
  /-- a definition was compiled -/
  | compiled (grammar : String) (rules delimiters indents : Nat)
  /-- a grammar took the place of one with the same name -/
  | reloaded (grammar : String)
  /-- lines were hidden behind a line -/
  | collapsed (count : Nat) (line : LineId)
  /-- the lines hidden behind a line came back -/
  | expanded (line : LineId) (count : Nat)
  /-- a fold layout was built -/
  | foldsBuilt (segments : Nat)
  /-- all blocks of a delimiter were collapsed -/
  | blocksCollapsed (count : Nat)
  /-- all collapsed lines were expanded -/
  | allExpanded (count : Nat)
  /-- the range carried into a line is none of the grammar -/
  | staleRange (id : RuleId)
  /-- a highlight pass analysed lines -/
  | rehighlighted (lines : Nat)
  /-- the range that a line hands on changed, so the next line has to be analysed -/
  | cascaded (line : LineId) (range : RuleId) (next : LineId)
  /-- an indent pattern decided the indentation of a line -/
  | indentDecided (pattern : String) (line : LineId)
  deriving DecidableEq, Repr

namespace Notice

/-- how important the notice is -/
def level : Notice → Level
  | brokenRule .. | brokenDelimiter .. | brokenIndentTest .. | danglingParent .. | unknownParent ..
  | undeclaredStyle .. | deadDelimiter .. | looksAhead .. => .warn
  | compiled .. | reloaded .. | collapsed .. | expanded .. | foldsBuilt .. | blocksCollapsed ..
  | allExpanded .. => .debug
  | staleRange .. | rehighlighted .. | cascaded .. | indentDecided .. => .trace

/-- the wording of the notice -/
def message : Notice → String
  | brokenRule rule source => s!"pattern '{rule}': invalid regex '{String.ofList source}'"
  | brokenDelimiter source => s!"delimiter: invalid regex '{String.ofList source}'"
  | brokenIndentTest source => s!"indent rule: invalid regex '{String.ofList source}'"
  | danglingParent rule parent => s!"pattern '{rule}': unknown parent {parent.hex}, treating as top-level"
  | unknownParent grammar rule parent =>
    s!"grammar '{grammar}': pattern '{rule}' has unknown parent '{parent}', treating as top-level"
  | undeclaredStyle grammar rule style => s!"grammar '{grammar}': pattern '{rule}' uses undeclared style '{style}'"
  | deadDelimiter opening closing =>
    s!"delimiter '{String.ofList opening}'/'{String.ofList closing}' does not compile and is ignored"
  | looksAhead grammar pattern lines =>
    s!"grammar '{grammar}': indent pattern '{pattern}' looks {lines} lines ahead, using the current line"
  | compiled grammar rules delimiters indents =>
    s!"compiled grammar '{grammar}': {rules} patterns, {delimiters} delimiters, {indents} indent patterns"
  | reloaded grammar => s!"grammar '{grammar}' reloaded"
  | collapsed count line => s!"collapsed {count} lines into {line.label}"
  | expanded line count => s!"expanded {line.label}: restored {count} lines"
  | foldsBuilt segments => s!"rebuilt {segments} fold segments"
  | blocksCollapsed count => s!"collapse_top_level: {count} collapses"
  | allExpanded count => s!"expand_all: {count} expands"
  | staleRange id => s!"carried range {id.hex} no longer in grammar, cleared"
  | rehighlighted lines => s!"rehighlight analyzed {lines} lines"
  | cascaded line range next => s!"{line.label}: range state {range.hex} cascades to {next.label}"
  | indentDecided pattern line => s!"indent pattern '{pattern}' matched {line.label}"

end Notice

end Linewise
