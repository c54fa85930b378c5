/-
Bringing the highlighting of a session up to date.

Analysing a line has the next line analysed again only if the range handed to it changed.
-/
import Linewise.Line.Carry
import Linewise.Region.Column
import Linewise.Session.Basic

namespace Linewise.Session

/-- the range open when a line begins: what the line above hands on -/
def incomingOf (s : Session) (id : LineId) : RuleId :=
  (((s.document.previous? id).bind s.table.get?).map (·.outgoing)).getD .none

/-- the state of a line with the given text once it is analysed -/
def analyzed (s : Session) (id : LineId) (text : Text) : LineState :=
  let regions := s.grammar.analyze text (s.incomingOf id)
  { regions
    tallies := .ofLine s.grammar.delimiters text regions.isCommented
    ignored := s.ignores text regions
    dirty := false
    snapshot := (s.table.entry id).snapshot.map fun snapshot => snapshot.carry s.grammar regions.outgoing }

/-- notices about ranges that are none of the grammar, in a line and in the lines it hides -/
def analysisNotices (s : Session) (id : LineId) (new : LineState) : List Notice :=
  s.grammar.staleNotices new.regions.incoming ++
    (((s.table.entry id).snapshot.map fun snapshot => snapshot.carryNotices s.grammar new.regions.outgoing).getD [])

/-- keep the state of an analysed line, and tell subscribers what differs from the one before -/
def store (s : Session) (id : LineId) (new : LineState) : Session :=
  let old := s.table.entry id
  let s := { s with table := s.table.insert id new }
  let s := if old.regions ≠ new.regions then s.notify (.lineChanged id) else s
  if old.tallies ≠ new.tallies ∨ old.ignored ≠ new.ignored then s.dropFolds else s

/-- hand a range to the next line; the answer is whether that line, clean before, has to be analysed again -/
def handOver (s : Session) (id : LineId) (range : RuleId) : Bool × Session :=
  match s.document.next? id with
  | none => (false, s)
  | some next =>
    if (s.table.get? next).map (·.incoming) = some range then (false, s)
    else if s.table.isDirty next then (false, s.markDirty? next)
    else (true, (s.markDirty? next).log [.cascaded id range next])

/-- analyse a line -/
def analyzeLine (s : Session) (id : LineId) : Bool × Session :=
  match s.document.text? id with
  | none => (false, s)
  | some text =>
    let new := s.analyzed id text
    ((s.log (s.analysisNotices id new)).store id new).handOver id new.outgoing

/-- analyse a line if it is dirty, and count it -/
def refresh (s : Session) (id : LineId) : Nat × Session :=
  if s.table.isDirty id then (1, (s.analyzeLine id).2) else (0, s)

/-- analyse the dirty ones of the lines from the first to the last, and count them -/
def refreshAll (s : Session) : List LineId → Nat × Session
  | [] => (0, s)
  | id :: ids =>
    let (first, s) := s.refresh id
    let (others, s) := s.refreshAll ids
    (first + others, s)

/-- analyse all dirty lines from the top; the answer is how many they were -/
def rehighlight (s : Session) : Nat × Session :=
  let (count, s) := s.refreshAll s.document.order
  (count, if 0 < count then s.log [.rehighlighted count] else s)

/-- analyse one line; the answer is whether the next line, clean before, has to be analysed again -/
def highlightLine (s : Session) (line : LineId) : Except EditError Bool × Session :=
  if s.document.contains line then
    let (cascades, s) := s.analyzeLine line
    (.ok cascades, s)
  else (.error (.unknownLine line), s)

/-- the styled spans of a line, with all lines up to date -/
def styledSpans (s : Session) (line : LineId) : Except EditError (List StyledSpan) × Session :=
  let s := s.rehighlight.2
  match s.document.text? line with
  | none => (.error (.unknownLine line), s)
  | some text => (.ok (((s.table.get? line).map fun state => state.regions.spans text).getD []), s)

end Linewise.Session
