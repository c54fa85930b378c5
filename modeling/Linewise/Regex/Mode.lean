/-
The switches of a pattern, set by a directive such as `(?i)` and in force until its group ends.
-/
import Linewise.Regex.Expr

namespace Linewise.Regex

/-- the switches in force at a place of a pattern -/
structure Mode where
  ignoreCase : Bool := false
  multiLine : Bool := false
  dotAll : Bool := false
  swapGreed : Bool := false
  verbose : Bool := false
  carriage : Bool := false
  deriving DecidableEq, Repr

namespace Mode

/-- turn the switch of a letter on or off; a pattern is always read as Unicode, so `u` can only be turned on -/
def set? (mode : Mode) (letter : Char) (on : Bool) : Option Mode :=
  match letter with
  | 'i' => some { mode with ignoreCase := on }
  | 'm' => some { mode with multiLine := on }
  | 's' => some { mode with dotAll := on }
  | 'U' => some { mode with swapGreed := on }
  | 'x' => some { mode with verbose := on }
  | 'R' => some { mode with carriage := on }
  | 'u' => if on then some mode else none
  | _ => none

/-- the set of one character -/
def literal (mode : Mode) (c : Char) : Expr :=
  .set ((CharSet.single c).fold mode.ignoreCase)

/-- any character but a line end, or any at all -/
def dot (mode : Mode) : Expr :=
  .set (.compl (if mode.dotAll then .empty
    else if mode.carriage then .union (.single '\r') (.single '\n')
    else .single '\n'))

/-- start of the text, or of a line -/
def caret (mode : Mode) : Expr :=
  .anchor (if !mode.multiLine then .textStart else if mode.carriage then .lineStartCr else .lineStart)

/-- end of the text, or of a line -/
def dollar (mode : Mode) : Expr :=
  .anchor (if !mode.multiLine then .textEnd else if mode.carriage then .lineEndCr else .lineEnd)

/-- drop the rest of a comment, its line feed included -/
def dropComment : Text → Text
  | [] => []
  | c :: cs => if c = '\n' then cs else dropComment cs

/-- drop white space and comments in front; the first argument bounds the comments -/
def dropSpace : Nat → Text → Text
  | 0, text => text
  | fuel + 1, text =>
    match text.dropWhile Text.isBlank with
    | '#' :: rest => dropSpace fuel (dropComment rest)
    | rest => rest

/-- drop what a verbose pattern may hold between its parts -/
def skip (mode : Mode) (text : Text) : Text :=
  if mode.verbose then dropSpace text.length text else text

end Mode

end Linewise.Regex
