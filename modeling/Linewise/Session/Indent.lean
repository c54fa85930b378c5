/-
Indenting the lines of a session.
-/
import Linewise.Indent.Engine
import Linewise.Session.Highlight

namespace Linewise.Session

/-- whether indentation passes over a line -/
def passesOver (s : Session) (id : LineId) : Bool := (s.table.get? id).any (·.ignored)

/-- the units that the indent patterns of the grammar give a line, with all lines up to date -/
def indentUnits (s : Session) (line : LineId) : Except EditError Nat × Session :=
  if s.document.contains line then
    let s := s.rehighlight.2
    (.ok (s.document.indent s.grammar.indents s.settings s.passesOver line),
      s.log (s.document.indentNotices s.grammar.indents s.passesOver line))
  else (.error (.unknownLine line), s)

/-- whether a line begins in a region that keeps its indentation -/
def keepsIndent (s : Session) (line : LineId) : Bool :=
  match s.document.text? line, s.table.get? line with
  | some text, some state => state.regions.beginsIn text .noIndent
  | _, _ => false

/-- indent a line anew, unless it begins in a region that keeps its indentation, and move the caret with the text -/
def indentLine (s : Session) (line : LineId) (caret : Option Nat) : Except EditError (Option IndentOutcome) × Session :=
  match s.indentUnits line with
  | (.error error, s) => (.error error, s)
  | (.ok units, s) =>
    if s.keepsIndent line then (.ok none, s)
    else
      match s.document.applyIndent? s.settings line units caret with
      | none => (.ok none, s)
      | some (outcome, document) =>
        let s := { s with document }
        (.ok (some outcome), if outcome.changed then (s.markDirty? line).dropFolds else s)

end Linewise.Session
