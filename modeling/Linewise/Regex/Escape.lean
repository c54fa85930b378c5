/-
The pattern that matches a given text and nothing else.
-/
import Linewise.Text.Basic

namespace Linewise.Regex

/-- characters with a meaning of their own in a pattern -/
def metaChars : List Char :=
  ['\\', '.', '+', '*', '?', '(', ')', '|', '[', ']', '\x7B', '\x7D', '^', '$', '#', '&', '-', '~']

/-- whether the character has a meaning of its own in a pattern -/
def isMeta (c : Char) : Bool := metaChars.contains c

/-- a backslash before every character that has a meaning of its own -/
def escape (text : Text) : Text :=
  text.flatMap fun c => if isMeta c then ['\\', c] else [c]

end Linewise.Regex
