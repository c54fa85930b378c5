/-
Fold layouts: the segments of one kind of delimiter, from the tallies of the lines.

Lines are visited from the top with a stack of open blocks. A line first closes blocks, as long as the innermost open
one was opened in the same context (ignored or not), then opens its own. What is open below the last line ends there.
-/
import Linewise.Balance.Pair
import Linewise.Fold.HiddenRows
import Linewise.Fold.Segment
import Linewise.Notice

namespace Linewise

/-- a line as folding sees it: where it is, what it opens and closes with all it hides, and how much it hides -/
structure FoldLine where
  id : LineId
  offset : Nat
  length : Nat
  tally : Tally
  ignored : Bool
  collapsed : Bool
  hidden : Nat
  deriving DecidableEq, Repr, Inhabited

/-- segments, inner ones first, and the hidden rows -/
structure Layout where
  segments : List Segment := []
  hidden : HiddenRows := {}
  deriving DecidableEq, Repr, Inhabited

/-- a block that is open: where, and the flags its segment will have -/
structure OpenBlock where
  marker : Marker
  flags : SegmentFlags
  deriving DecidableEq, Repr

/-- the state between two lines: the next row, the open blocks (innermost first), the segments so far (latest first),
the hidden rows and the end of the last line -/
structure FoldState where
  row : Nat := 0
  stack : List OpenBlock := []
  segments : List Segment := []
  hidden : HiddenRows := {}
  lastEnd : Option Marker := none
  deriving DecidableEq, Repr

namespace FoldState

/-- close up to so many blocks, as long as the innermost one has the context `ignored` -/
def close (stop : Marker) (ignored : Bool) (extra : SegmentFlags) :
    Nat → List OpenBlock → List Segment → List OpenBlock × List Segment
  | 0, stack, segments => (stack, segments)
  | _ + 1, [], segments => ([], segments)
  | n + 1, block :: stack, segments =>
    if block.flags.contains .ignored == ignored then
      close stop ignored extra n stack (⟨block.marker, stop, block.flags.union extra⟩ :: segments)
    else (block :: stack, segments)

/-- visit one line -/
def step (s : FoldState) (line : FoldLine) : FoldState :=
  let start : Marker :=
    { line := line.id, row := s.row, logical := s.hidden.logical s.row, offset := line.offset, resolved := true }
  let stop : Marker := { start with offset := line.offset + line.length }
  let pair := line.tally.pair line.ignored
  let (stack, segments) := close stop line.ignored (.when (0 < pair.opened) .beginOnly) pair.closed s.stack s.segments
  let flags := (SegmentFlags.when line.ignored .ignored).union (.when line.collapsed .collapsed)
  { row := s.row + 1
    stack := List.replicate pair.opened ⟨start, flags⟩ ++ stack
    segments := if line.collapsed then ⟨start, stop, flags⟩ :: segments else segments
    hidden := if line.collapsed then s.hidden.push s.row line.hidden else s.hidden
    lastEnd := some stop }

/-- end what is open at the last line, innermost first -/
def finish (s : FoldState) : Layout :=
  let rest := match s.lastEnd with
    | none => []
    | some stop => s.stack.map fun block => ⟨block.marker, stop, block.flags⟩
  { segments := Segment.sort (s.segments.reverse ++ rest), hidden := s.hidden }

end FoldState

namespace Layout

/-- the layout of a list of lines -/
def build (lines : List FoldLine) : Layout := (lines.foldl FoldState.step {}).finish

/-- how many segments of more than one line hold the row -/
def depth (layout : Layout) (row : Nat) : Nat :=
  layout.segments.countP fun s => !s.isEmpty && s.hasRow row

/-- the innermost segment that begins at the row -/
def segmentAt? (layout : Layout) (row : Nat) : Option Segment :=
  layout.segments.find? fun s => s.start.row == row

/-- leave out each segment that lies in the last one kept -/
def skipContained : Option Segment → List Segment → List Segment
  | _, [] => []
  | last, s :: rest =>
    if last.any (·.contains s) then skipContained last rest else s :: skipContained (some s) rest

/-- the segments to draw: one that lies in the one drawn before it is left out -/
def drawable (layout : Layout) : List Segment := skipContained none layout.segments

/-- the notice that the layout was built -/
def notice (layout : Layout) : Notice := .foldsBuilt layout.segments.length

end Layout

end Linewise
