/-
How indentation is written and read.
-/
import Linewise.Text.Basic

namespace Linewise

/-- width of a tab stop, whether a unit is written as spaces, and spaces in front of every indented line -/
structure IndentSettings where
  tabWidth : Nat := 4
  emulateTabs : Bool := false
  baseIndentation : Nat := 0
  deriving DecidableEq, Repr, Inhabited

namespace IndentSettings

/-- the spaces that count as one unit -/
def tabSpaces (s : IndentSettings) : Text := List.replicate (max s.tabWidth 1) ' '

/-- one unit as written -/
def unit (s : IndentSettings) : Text := if s.emulateTabs then s.tabSpaces else ['\t']

/-- the margin of so many units -/
def indentation (s : IndentSettings) (units : Nat) : Text :=
  List.replicate s.baseIndentation ' ' ++ (List.replicate units s.unit).flatten

/-- the text behind one unit in front of it -/
def dropUnit? (s : IndentSettings) (text : Text) : Option Text :=
  match text with
  | '\t' :: rest => some rest
  | _ => if s.tabSpaces.isPrefixOf text then some (text.drop s.tabSpaces.length) else none

/-- units in front of a text; each takes a character or more, so the first argument bounds them -/
def unitsIn (s : IndentSettings) : Nat → Text → Nat
  | 0, _ => 0
  | fuel + 1, text =>
    match s.dropUnit? text with
    | none => 0
    | some rest => 1 + s.unitsIn fuel rest

/-- the text behind the base indentation, or behind as much of it as there is -/
def dropBase (s : IndentSettings) (text : Text) : Text :=
  text.drop ((text.take s.baseIndentation).takeWhile (· == ' ')).length

/-- the units in front of a line, behind its base indentation: tabs, and spaces a tab stop wide -/
def countUnits (s : IndentSettings) (text : Text) : Nat :=
  s.unitsIn text.length (s.dropBase text)

end IndentSettings

end Linewise
