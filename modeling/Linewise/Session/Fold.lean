/-
Folding the lines of a session.
-/
import Linewise.Session.Highlight
import Linewise.Sheet.Collapse

namespace Linewise.Session

/-- the layout of one kind of delimiter, with all lines up to date; it is built only if none is kept -/
def layout (s : Session) (kind : Nat) : Except EditError Layout × Session :=
  if kind < s.grammar.delimiters.length then
    let s := s.rehighlight.2
    let s := if s.folds.length = s.grammar.delimiters.length then s else { s with folds := noFolds s.grammar }
    match s.folds[kind]? with
    | none => (.error (.unknownDelimiter kind), s)
    | some (some layout) => (.ok layout, s)
    | some none =>
      let layout := Layout.build (s.foldLines kind)
      (.ok layout, { s with folds := s.folds.set kind (some layout) }.log [layout.notice])
  else (.error (.unknownDelimiter kind), s)

/-- the segments of one kind of delimiter, inner ones first -/
def segments (s : Session) (kind : Nat) : Except EditError (List Segment) × Session :=
  let (answer, s) := s.layout kind
  (answer.map (·.segments), s)

/-- hide the lines below `start` up to `stop`, all of them and the line above up to date -/
def collapseClean (s : Session) (start stop : LineId) : Except EditError Nat × Session :=
  match s.toSheet.collapse start stop with
  | (.error error, sheet) => (.error error, { s with toSheet := sheet })
  | (.ok count, sheet) =>
    let s := { s with toSheet := sheet }.log [.collapsed count start]
    (.ok count, (s.markDirty? (s.document.next? start)).dropFolds)

/-- hide the lines below `start` up to `stop`; the answer is how many they are -/
def collapse (s : Session) (start stop : LineId) : Except EditError Nat × Session :=
  s.rehighlight.2.collapseClean start stop

/-- bring back the lines hidden behind a line; the answer is their new ids -/
def expand (s : Session) (line : LineId) (deep : Bool) : Except EditError (List LineId) × Session :=
  match s.toSheet.expand line deep with
  | (.error error, sheet) => (.error error, { s with toSheet := sheet })
  | (.ok ids, sheet) =>
    let s := { s with toSheet := sheet }.log [.expanded line ids.length]
    (.ok ids, (s.markDirty? (s.document.next? (ids.getLast?.getD line))).dropFolds)

/-- fold a segment; the answer is how many lines it hides -/
def collapseSegment (s : Session) (segment : Segment) : Except EditError Nat × Session :=
  match Sheet.block? s.document segment with
  | .error error => (.error error, s)
  | .ok none => (.ok 0, s)
  | .ok (some (start, stop)) => s.collapse start stop

/-! ## All blocks at once -/

/-- lines hidden so far, each with the line it went behind -/
abbrev Holders := List (LineId × LineId)

/-- the visible line that holds a line now; lines go behind lines only so often, so the first argument bounds the
chain -/
def holderOf (holders : Holders) : Nat → LineId → LineId
  | 0, id => id
  | fuel + 1, id =>
    match holders.lookup id with
    | none => id
    | some holder => holderOf holders fuel holder

/-- the segment with its ends moved to visible lines -/
def resolve (holders : Holders) (segment : Segment) : Segment :=
  let visible := holderOf holders (holders.length + 1)
  { segment with
    start := { segment.start with line := visible segment.start.line }
    stop := { segment.stop with line := visible segment.stop.line } }

/-- fold the segments one after the other, given the lines hidden so far and the last segment folded; one that lies in
the last one folded is left out. The answer is how many were folded. -/
def collapseEach (s : Session) (holders : Holders) (last : Option Segment) :
    List Segment → Except EditError Nat × Session
  | [] => (.ok 0, s)
  | segment :: rest =>
    if last.any (·.contains segment) then s.collapseEach holders last rest
    else
      match Sheet.block? s.document (resolve holders segment) with
      | .error error => (.error error, s)
      | .ok none => s.collapseEach holders last rest
      | .ok (some (start, stop)) =>
        match s.document.row? start, s.document.row? stop with
        | some first, some final =>
          let rows := (s.document.order.drop first).take (final - first + 1)
          match (s.refreshAll rows).2.collapseClean start stop with
          | (.error error, s) => (.error error, s)
          | (.ok _, s) =>
            let (answer, s) := s.collapseEach ((rows.drop 1).map (·, start) ++ holders) (some segment) rest
            (answer.map (· + 1), s)
        | _, _ => s.collapseEach holders last rest

/-- fold every block of one kind of delimiter, inner ones first, but for those that begin on a collapsed line; the answer
is how many were folded -/
def collapseBlocks (s : Session) (kind : Nat) : Except EditError Nat × Session :=
  match s.segments kind with
  | (.error error, s) => (.error error, s)
  | (.ok segments, s) =>
    let eligible := segments.filter fun segment => !segment.has .collapsed && !segment.isEmpty
    match s.collapseEach [] none eligible with
    | (.error error, s) => (.error error, s)
    | (.ok count, s) => (.ok count, s.log [.blocksCollapsed count])

/-- how many lines the document would have if nothing were hidden -/
def expandedCount (s : Session) : Nat :=
  s.document.order.foldr (fun id count => 1 + ((s.table.get? id).map (·.hiddenCount)).getD 0 + count) 0

/-- bring back what is hidden behind a line and behind those below it, the ones that came back included; the answer is
how many lines were expanded. The first argument bounds the lines visited. -/
def expandFrom (s : Session) : Nat → Option LineId → Except EditError Nat × Session
  | 0, _ => (.ok 0, s)
  | _ + 1, none => (.ok 0, s)
  | fuel + 1, some id =>
    if s.table.isCollapsed id then
      match s.expand id false with
      | (.error error, s) => (.error error, s)
      | (.ok _, s) =>
        let (answer, s) := s.expandFrom fuel (s.document.next? id)
        (answer.map (· + 1), s)
    else s.expandFrom fuel (s.document.next? id)

/-- bring back all hidden lines; the answer is how many lines were expanded -/
def expandAll (s : Session) : Except EditError Nat × Session :=
  match s.expandFrom s.expandedCount s.document.first? with
  | (.error error, s) => (.error error, s)
  | (.ok count, s) => (.ok count, s.log [.allExpanded count])

end Linewise.Session
