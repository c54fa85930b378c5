/-
Fold segments: stretches of rows that belong together.
-/
import Linewise.Line.Id

namespace Linewise

/-- one end of a segment: its line, the row of that line, the row it would have if nothing were hidden, and a byte
offset in the document -/
structure Marker where
  line : LineId
  row : Nat
  logical : Nat
  offset : Nat
  resolved : Bool
  deriving DecidableEq, Repr, Inhabited

/-- a marker that is not looked up in a document -/
def Marker.unresolved (line : LineId) : Marker := ⟨line, 0, 0, 0, false⟩

/-- what holds of a segment beyond its ends -/
structure SegmentFlags where
  bits : UInt32
  deriving DecidableEq, Repr, Inhabited

namespace SegmentFlags

/-- no flag -/
def none : SegmentFlags := ⟨0⟩

/-- the segment begins on a collapsed line -/
def collapsed : SegmentFlags := ⟨1⟩

/-- the segment was opened on an ignored line -/
def ignored : SegmentFlags := ⟨2⟩

/-- the last line opens another block -/
def beginOnly : SegmentFlags := ⟨4⟩

/-- whether all flags of `other` are set -/
def contains (flags other : SegmentFlags) : Bool := flags.bits &&& other.bits == other.bits

/-- the flags of either -/
def union (flags other : SegmentFlags) : SegmentFlags := ⟨flags.bits ||| other.bits⟩

/-- `flags` if `on` holds, else none -/
def when (on : Bool) (flags : SegmentFlags) : SegmentFlags := if on then flags else none

end SegmentFlags

/-- a stretch of rows that can be folded -/
structure Segment where
  start : Marker
  stop : Marker
  flags : SegmentFlags
  deriving DecidableEq, Repr, Inhabited

namespace Segment

/-- whether the segment has the flags -/
def has (s : Segment) (flags : SegmentFlags) : Bool := s.flags.contains flags

/-- whether the ends that are drawn are looked up -/
def isValid (s : Segment) : Bool := s.start.resolved && (s.has .beginOnly || s.stop.resolved)

/-- whether both ends are on one line -/
def isEmpty (s : Segment) : Bool := s.start.line == s.stop.line

/-- whether the row is in the segment -/
def hasRow (s : Segment) (row : Nat) : Bool := s.start.row ≤ row && row ≤ s.stop.row

/-- whether the rows of `t` are in `s` -/
def contains (s t : Segment) : Bool := s.start.row ≤ t.start.row && t.stop.row ≤ s.stop.row

/-- inner segments first: later begins before earlier ones, then earlier ends before later ones -/
def innerFirst (s t : Segment) : Bool :=
  t.start.row < s.start.row || (s.start.row == t.start.row && s.stop.row ≤ t.stop.row)

/-- put a segment before the first one that it may precede -/
def place (s : Segment) : List Segment → List Segment
  | [] => [s]
  | t :: rest => if s.innerFirst t then s :: t :: rest else t :: place s rest

/-- inner segments first; segments with the same rows keep their order -/
def sort (segments : List Segment) : List Segment := segments.foldr place []

end Segment

end Linewise
