/-
Sheets: a document with what is known of its lines, and the errors of operations on it.
-/
import Linewise.Document.Basic
import Linewise.Fold.Layout
import Linewise.Line.State

namespace Linewise

/-- a document and the states of its lines -/
structure Sheet where
  document : Document
  table : LineTable := {}

/-- why an operation on lines is refused -/
inductive EditError where
  | unknownLine (line : LineId)
  | notCollapsed (line : LineId)
  | invalidRange (start stop : LineId)
  | segmentOutOfRange
  | unknownDelimiter (kind : Nat)
  deriving DecidableEq, Repr

/-- the wording of an error -/
def EditError.message : EditError → String
  | unknownLine line => s!"unknown line {line.label}"
  | notCollapsed line => s!"line {line.label} is not collapsed"
  | invalidRange start stop => s!"invalid line range {start.label}..={stop.label}"
  | segmentOutOfRange => "fold segment out of range"
  | unknownDelimiter kind => s!"delimiter index {kind} out of range"

namespace Sheet

/-- the lines as folding sees them, from byte `offset` on -/
def foldLinesFrom (s : Sheet) (kind : Nat) : Nat → List LineId → List FoldLine
  | _, [] => []
  | offset, id :: ids =>
    let length := Text.width (s.document.textOf id)
    let state := (s.table.get? id).getD {}
    { id, offset, length
      tally := state.totalTallies.get kind
      ignored := state.ignored
      collapsed := state.isCollapsed
      hidden := state.hiddenCount } :: s.foldLinesFrom kind (offset + length + 1) ids

/-- the lines as folding sees them, for one kind of delimiter -/
def foldLines (s : Sheet) (kind : Nat) : List FoldLine := s.foldLinesFrom kind 0 s.document.order

/-- the lines that a segment hides when it is folded: the line that stays, and the last one hidden. The last line of
the segment stays as well if it opens another block. -/
def block? (d : Document) (segment : Segment) : Except EditError (Option (LineId × LineId)) :=
  match d.row? segment.start.line, d.row? segment.stop.line with
  | some first, some last =>
    if last < first then .error .segmentOutOfRange
    else if segment.has .beginOnly && first < last then
      match d.lineAt? (last - 1) with
      | none => .error .segmentOutOfRange
      | some line => .ok (if first < last - 1 then some (segment.start.line, line) else none)
    else .ok (if first < last then some (segment.start.line, segment.stop.line) else none)
  | _, _ => .error .segmentOutOfRange

end Sheet

end Linewise
