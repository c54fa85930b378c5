/-
Editing the lines of a session.
-/
import Linewise.Session.Basic

namespace Linewise.Session

/-- replace the text of a line -/
def setText (s : Session) (line : LineId) (text : Text) : Except EditError Unit × Session :=
  match s.document.setText? line text with
  | none => (.error (.unknownLine line), s)
  | some document => (.ok (), ({ s with document }.markDirty? line).dropFolds)

/-- take up a new line -/
def take (s : Session) (inserted : LineId × Document) : Session :=
  let (id, document) := inserted
  let s := { s with document, table := s.table.insert id .fresh }
  (s.markDirty? (document.next? id)).dropFolds

/-- a new line below a line, or at the top -/
def insertAfter (s : Session) (after : Option LineId) (text : Text) : Except EditError LineId × Session :=
  match after with
  | none =>
    let inserted := s.document.insertFirst text
    (.ok inserted.1, s.take inserted)
  | some after =>
    match s.document.insertAfter? after text with
    | none => (.error (.unknownLine after), s)
    | some inserted => (.ok inserted.1, s.take inserted)

/-- a new line above a line -/
def insertBefore (s : Session) (before : LineId) (text : Text) : Except EditError LineId × Session :=
  match s.document.insertBefore? before text with
  | none => (.error (.unknownLine before), s)
  | some inserted => (.ok inserted.1, s.take inserted)

/-- take out a line with all it hides; the only line is emptied instead. The answer is the text it had. -/
def remove (s : Session) (line : LineId) : Except EditError Text × Session :=
  let next := s.document.next? line
  match s.document.remove? line with
  | none => (.error (.unknownLine line), s)
  | some (text, document) =>
    let table := if document.contains line then s.table.insert line .fresh else s.table.erase line
    (.ok text, ({ s with document, table }.markDirty? next).dropFolds)

end Linewise.Session
