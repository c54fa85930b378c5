/-
The operations of a session as data, so that statements can range over runs of them.
-/
import Linewise.Session.Edit
import Linewise.Session.Fold
import Linewise.Session.Indent

namespace Linewise

/-- an operation of a session -/
inductive Op where
  | rehighlight
  | highlightLine (line : LineId)
  | styledSpans (line : LineId)
  | setText (line : LineId) (text : Text)
  | insertAfter (line : Option LineId) (text : Text)
  | insertBefore (line : LineId) (text : Text)
  | remove (line : LineId)
  | layout (kind : Nat)
  | segments (kind : Nat)
  | collapse (start stop : LineId)
  | expand (line : LineId) (deep : Bool)
  | collapseSegment (segment : Segment)
  | collapseBlocks (kind : Nat)
  | expandAll
  | indentUnits (line : LineId)
  | indentLine (line : LineId) (caret : Option Nat)
  deriving DecidableEq, Repr

/-- the answer to an operation -/
inductive Reply where
  | done
  | count (n : Nat)
  | flag (b : Bool)
  | line (id : LineId)
  | lines (ids : List LineId)
  | text (text : Text)
  | spans (spans : List StyledSpan)
  | layout (layout : Layout)
  | segments (segments : List Segment)
  | indented (outcome : Option IndentOutcome)
  deriving DecidableEq, Repr

namespace Session

/-- an answer of a certain kind -/
def reply {α : Type} (f : α → Reply) (answer : Except EditError α × Session) : Except EditError Reply × Session :=
  (answer.1.map f, answer.2)

/-- perform an operation -/
def perform (s : Session) : Op → Except EditError Reply × Session
  | .rehighlight => let (count, s) := s.rehighlight; (.ok (.count count), s)
  | .highlightLine line => reply .flag (s.highlightLine line)
  | .styledSpans line => reply .spans (s.styledSpans line)
  | .setText line text => reply (fun _ => .done) (s.setText line text)
  | .insertAfter line text => reply .line (s.insertAfter line text)
  | .insertBefore line text => reply .line (s.insertBefore line text)
  | .remove line => reply .text (s.remove line)
  | .layout kind => reply .layout (s.layout kind)
  | .segments kind => reply .segments (s.segments kind)
  | .collapse start stop => reply .count (s.collapse start stop)
  | .expand line deep => reply .lines (s.expand line deep)
  | .collapseSegment segment => reply .count (s.collapseSegment segment)
  | .collapseBlocks kind => reply .count (s.collapseBlocks kind)
  | .expandAll => reply .count s.expandAll
  | .indentUnits line => reply .count (s.indentUnits line)
  | .indentLine line caret => reply .indented (s.indentLine line caret)

/-- the session after an operation -/
def step (s : Session) (op : Op) : Session := (s.perform op).2

/-- the session after a run of operations -/
def run (s : Session) (ops : List Op) : Session := ops.foldl step s

@[simp] theorem run_nil (s : Session) : s.run [] = s := rfl

theorem run_cons (s : Session) (op : Op) (ops : List Op) : s.run (op :: ops) = (s.step op).run ops := rfl

theorem run_append (s : Session) (first second : List Op) : s.run (first ++ second) = (s.run first).run second := by
  simp [run, List.foldl_append]

end Session

end Linewise
