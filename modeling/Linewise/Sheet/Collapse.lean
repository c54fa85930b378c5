/-
Hiding lines behind a line and bringing them back.
-/
import Linewise.Sheet.Basic

namespace Linewise

/-- a line as it is kept once it is hidden -/
def LineState.toSnapshot (state : LineState) (text : Text) : Snapshot where
  text
  collapsed := state.isCollapsed
  tallies := state.totalTallies
  children := (state.snapshot.map (·.children)).getD []
  carried := none

/-- the snapshot of a line that hides more lines -/
def Snapshot.extend (old : Option Snapshot) (text : Text) (children : List Snapshot) (carried : Carried) : Snapshot :=
  let old := old.getD {}
  { text
    collapsed := true
    tallies := old.tallies + combined children
    children := old.children ++ children
    carried := some carried }

namespace Sheet

/-- the ranges open before and after the lines below `start` up to `stop`, as last analysed -/
def carriedBetween (s : Sheet) (start stop : LineId) : Carried where
  incoming := ((s.table.get? start).map (·.regions.outgoing)).getD .none
  outgoing := ((s.table.get? stop).map (·.outgoing)).getD .none

/-- hide the rows below `first` up to `last` behind the line `start` at row `first`, and tell how many they are -/
def hideRows (s : Sheet) (start stop : LineId) (first last : Nat) : Nat × Sheet :=
  let (hidden, document) := s.document.removeRows (first + 1) last
  let children := hidden.map fun (id, text) => ((s.table.get? id).getD {}).toSnapshot text
  let table := hidden.foldl (fun t (id, _) => t.erase id) s.table
  let state := table.entry start
  let snapshot := Snapshot.extend state.snapshot (document.textOf start) children (s.carriedBetween start stop)
  (children.length, { document, table := table.insert start { state with dirty := true, snapshot := some snapshot } })

/-- hide the lines below `start` up to `stop`; the answer is how many they are -/
def collapse (s : Sheet) (start stop : LineId) : Except EditError Nat × Sheet :=
  match s.document.row? start with
  | none => (.error (.unknownLine start), s)
  | some first =>
    match s.document.row? stop with
    | none => (.error (.unknownLine stop), s)
    | some last =>
      if last ≤ first then (.error (.invalidRange start stop), s)
      else
        let (count, s) := s.hideRows start stop first last
        (.ok count, s)

/-- bring back the lines of a snapshot below a line that keeps none -/
def restore (s : Sheet) (line : LineId) (snapshot : Snapshot) (deep : Bool) : Except EditError (List LineId) × Sheet :=
  let lines := Snapshot.restoredAll deep snapshot.children
  match s.document.insertLinesAfter? line (lines.map (·.1)) with
  | none => (.error (.unknownLine line), s)
  | some (ids, document) =>
    let states := ids.zip (lines.map fun (_, snapshot) => { LineState.fresh with snapshot })
    (.ok ids, { document, table := s.table.insertAll states })

/-- bring back the lines hidden behind a line; the answer is their new ids. A hidden line that was collapsed comes back
collapsed, unless `deep`. -/
def expand (s : Sheet) (line : LineId) (deep : Bool) : Except EditError (List LineId) × Sheet :=
  if !s.document.contains line then (.error (.unknownLine line), s)
  else
    match s.table.get? line with
    | none => (.error (.notCollapsed line), s)
    | some state =>
      let s := { s with table := s.table.insert line { state with dirty := true, snapshot := none } }
      match state.snapshot with
      | none => (.error (.notCollapsed line), s)
      | some snapshot => s.restore line snapshot deep

end Sheet

end Linewise
