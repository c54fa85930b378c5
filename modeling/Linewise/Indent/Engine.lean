/-
The indentation of a line.

Each test of a pattern goes up from the line by itself, to the line that it is about; lines that are passed over do not
count on the way. The first pattern of which all tests pass decides, from the units of the nearest line above that is not
passed over; without such a pattern the line gets those units. The first line of a document has none.
-/
import Linewise.Document.Basic
import Linewise.Indent.Pattern
import Linewise.Indent.Settings

namespace Linewise

/-- go up until so many lines that are not passed over have been met; at most `steps` lines are looked at -/
def Document.walkBack (d : Document) (ignored : LineId → Bool) : Nat → Nat → LineId → Option LineId
  | _, 0, id => some id
  | 0, _ + 1, _ => none
  | steps + 1, count + 1, id =>
    match d.previous? id with
    | none => none
    | some up => d.walkBack ignored steps (if ignored up then count + 1 else count) up

/-- the line that is so many lines above, lines that are passed over not counted; no line is met twice on the way -/
def Document.countedAbove? (d : Document) (ignored : LineId → Bool) (count : Nat) (id : LineId) : Option LineId :=
  d.walkBack ignored d.lineCount count id

namespace IndentPattern

/-- whether all tests pass for a line; one that goes up past the first line fails, and a pattern without tests decides
nothing -/
def accepts (p : IndentPattern) (d : Document) (ignored : LineId → Bool) (id : LineId) : Bool :=
  !p.tests.isEmpty && p.tests.all fun test =>
    let target := if test.lookBack = 0 then some id else d.countedAbove? ignored test.lookBack id
    (target.bind d.text?).any test.accepts

end IndentPattern

/-- the pattern that decides, if any -/
def Document.decidingPattern? (d : Document) (patterns : List IndentPattern) (ignored : LineId → Bool) (id : LineId) :
    Option IndentPattern :=
  patterns.find? fun p => p.accepts d ignored id

/-- units for a line of a document -/
def Document.indent (d : Document) (patterns : List IndentPattern) (settings : IndentSettings)
    (ignored : LineId → Bool) (id : LineId) : Nat :=
  if (d.previous? id).isNone then 0
  else
    let units := (((d.countedAbove? ignored 1 id).bind d.text?).map settings.countUnits).getD 0
    match d.decidingPattern? patterns ignored id with
    | none => units
    | some p => p.apply units

/-- the notice that a pattern decided the indentation of a line -/
def Document.indentNotices (d : Document) (patterns : List IndentPattern) (ignored : LineId → Bool) (id : LineId) :
    List Notice :=
  if (d.previous? id).isNone then []
  else
    match d.decidingPattern? patterns ignored id with
    | none => []
    | some p => [.indentDecided p.name id]

/-- what became of a line whose indentation was written anew: its units, whether its text changed, and the caret -/
structure IndentOutcome where
  units : Nat
  changed : Bool
  caret : Option Nat
  deriving DecidableEq, Repr

/-- the line with so many units in front -/
def IndentSettings.reindent (settings : IndentSettings) (text : Text) (units : Nat) : Text :=
  settings.indentation units ++ Text.content text

/-- where a caret goes: one in the old margin to the end of the new one, any other along with the text -/
def IndentSettings.moveCaret (settings : IndentSettings) (text : Text) (units caret : Nat) : Nat :=
  let old := Text.width (Text.margin text)
  let new := Text.width (settings.indentation units)
  if caret ≤ old then new else caret - old + new

/-- write the indentation of a line anew -/
def Document.applyIndent? (d : Document) (settings : IndentSettings) (id : LineId) (units : Nat) (caret : Option Nat) :
    Option (IndentOutcome × Document) :=
  match d.text? id with
  | none => none
  | some text =>
    let written := settings.reindent text units
    some ({ units, changed := written != text, caret := caret.map (settings.moveCaret text units) },
      if written != text then (d.setText? id written).getD d else d)

end Linewise
