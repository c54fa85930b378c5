import Linewise.Balance.Delimiter
import Linewise.Balance.Pair
import Linewise.Data.Node
import Linewise.Definition.Basic
import Linewise.Definition.Compile
import Linewise.Definition.Decode
import Linewise.Document.Basic
import Linewise.Fold.HiddenRows
import Linewise.Fold.Layout
import Linewise.Fold.Segment
import Linewise.Grammar.Basic
import Linewise.Highlight
import Linewise.Ignore
import Linewise.Indent.Engine
import Linewise.Indent.Pattern
import Linewise.Indent.Settings
import Linewise.Library
import Linewise.Line.Carry
import Linewise.Line.Id
import Linewise.Line.Snapshot
import Linewise.Line.State
import Linewise.Notice
import Linewise.Regex.Atom
import Linewise.Regex.CharSet
import Linewise.Regex.Escape
import Linewise.Regex.Expr
import Linewise.Regex.Matching
import Linewise.Regex.Mode
import Linewise.Regex.Parser
import Linewise.Regex.Pattern
import Linewise.Regex.Search
import Linewise.Region.Basic
import Linewise.Region.Column
import Linewise.Region.Overlap
import Linewise.Rule.Basic
import Linewise.Rule.Flags
import Linewise.Rule.Id
import Linewise.Rule.Occurrence
import Linewise.Session.Basic
import Linewise.Session.Edit
import Linewise.Session.Fold
import Linewise.Session.Highlight
import Linewise.Session.Indent
import Linewise.Session.Op
import Linewise.Sheet.Basic
import Linewise.Sheet.Collapse
import Linewise.Style
import Linewise.Text.Basic
import Linewise.Text.Blank
import Linewise.Text.CaseFold
import Linewise.Text.Digits
import Linewise.Text.Quoted
import Linewise.Text.Ranges
import Linewise.Text.WordChars
import Linewise.Yaml.Parser
import Linewise.Yaml.Scalar
import Linewise.Yaml.Scan
import Linewise.Proofs.Document.Edits
import Linewise.Proofs.Sheet.Rows
import Linewise.Proofs.Session.Move
import Linewise.Proofs.Session.Runs
import Linewise.Proofs.Session.Walk
import Linewise.Proofs.Hidden.Texts
import Linewise.Proofs.Highlighting.Batch
import Linewise.Proofs.Balance.Pair
import Linewise.Proofs.Hidden.Tallies
import Linewise.Proofs.Fold.Cache
import Linewise.Proofs.Document.Plain
import Linewise.Proofs.Session.Representation
import Linewise.Proofs.Fold.Sweep
import Linewise.Proofs.Fold.Tokens
import Linewise.Proofs.Fold.Blocks
import Linewise.Proofs.Fold.Collapse
import Linewise.Proofs.Fold.CollapseSegment
import Linewise.Proofs.Session.Deliveries
import Linewise.Proofs.Fold.Coordinates
import Linewise.Proofs.Library.FailedLoad
import Linewise.Proofs.Fold.CollapseBlocks
import Linewise.Proofs.Session.Failures
import Linewise.Proofs.Library.Styles
import Linewise.Proofs.Regex.Places
import Linewise.Proofs.Regex.Search
import Linewise.Proofs.Rule.Occurrences
import Linewise.Proofs.Grammar.Built
import Linewise.Proofs.Region.Overlap
import Linewise.Proofs.Highlighting.Candidates
import Linewise.Proofs.Highlighting.Outgoing
import Linewise.Proofs.Highlighting.Coverage
import Linewise.Proofs.Region.Forest
import Linewise.Proofs.Fold.Laminar
import Linewise.Proofs.Highlighting.Found
import Linewise.Proofs.Highlighting.Lost
import Linewise.Proofs.Highlighting.Spans
import Linewise.Proofs.Fold.Merge
import Linewise.Proofs.Hidden.Trees
import Linewise.Proofs.Session.Settled
import Linewise.Proofs.Fold.Gather
import Linewise.Proofs.Fold.Eligible
import Linewise.Proofs.Fold.Reach
import Linewise.Proofs.Fold.AllBlocks
import Linewise.Proofs.Fold.Again
import Linewise.Proofs.Hidden.OpenAll
import Linewise.Proofs.Highlighting.Cascade
import Linewise.Proofs.Indent.Margins
import Linewise.Proofs.Document.Order
import Linewise.Proofs.Indent.View
import Linewise.Proofs.Definition.Compiled
import Linewise.Proofs.Grammar.Ancestors
import Linewise.Proofs.Regex.Meaning
import Linewise.Proofs.Regex.Behind
import Linewise.Proofs.Regex.Paste
import Linewise.Proofs.Balance.Tokens
import Linewise.Proofs.Balance.Literal
import Linewise.Proofs.Balance.Unmatched
import Linewise.Proofs.Balance.Words
import Linewise.Proofs.Fold.Translation
import Linewise.Proofs.Fold.Words
import Linewise.Proofs.Region.Greedy
import Linewise.Proofs.Rule.Rounds
import Linewise.Proofs.Highlighting.Termination
import Linewise.Proofs.Fold.Drawable
