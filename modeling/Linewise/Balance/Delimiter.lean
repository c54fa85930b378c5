/-
Delimiters: the tokens that open and close a block.

A line is scanned with one pattern; each token found is told to be an opening or a closing one by matching it, on its
own, against the opening and then the closing pattern.
-/
import Linewise.Balance.Pair
import Linewise.Notice
import Linewise.Regex.Escape
import Linewise.Regex.Pattern

namespace Linewise

open Regex (Pattern)

/-- a kind of delimiter: the sources of its two tokens, the patterns that tell whole tokens apart, and the pattern that
finds tokens -/
structure Delimiter where
  opening : Text
  closing : Text
  openingToken : Pattern
  closingToken : Pattern
  scanner : Pattern
  deriving DecidableEq, Repr

namespace Delimiter

/-- the pattern of a whole token -/
def wholeToken (source : Text) : Pattern :=
  if source.isEmpty then .none else .compile (['^', '(', '?', ':'] ++ source ++ [')', '$']) false

/-- the pattern that finds either token -/
def eitherToken (opening closing : Text) : Text :=
  if opening.isEmpty || closing.isEmpty then []
  else ['(', '?', ':'] ++ opening ++ [')', '|', '(', '?', ':'] ++ closing ++ [')']

/-- a delimiter of two patterns; `scanner` finds tokens instead of either pattern, if given -/
def ofPatterns (opening closing : Text) (scanner : Option Text) : Delimiter where
  opening
  closing
  openingToken := wholeToken opening
  closingToken := wholeToken closing
  scanner := .compile (scanner.getD (eitherToken opening closing)) false

/-- a delimiter of two plain tokens -/
def literal (opening closing : Text) : Delimiter :=
  ofPatterns (Regex.escape opening) (Regex.escape closing) none

/-- whether tokens can be found and told apart -/
def isValid (d : Delimiter) : Bool := d.openingToken.isValid && d.closingToken.isValid && d.scanner.isValid

/-- warnings about patterns without meaning -/
def notices (d : Delimiter) : List Notice :=
  ([d.openingToken, d.closingToken, d.scanner].filter (·.isBroken)).map fun pattern => .brokenDelimiter pattern.source

/-- count one token -/
def countToken (d : Delimiter) (token : Text) (pair : Pair) : Pair :=
  if d.openingToken.accepts token then pair.addOpening
  else if d.closingToken.accepts token then pair.addClosing
  else pair

/-- count the tokens of a line; `commented` tells from the offset of a token whether it is in a comment -/
def count (d : Delimiter) (text : Text) (commented : Nat → Bool) : Tally :=
  if d.isValid then
    (d.scanner.hits text).foldl (fun t hit => t.modify (commented hit.start.offset) (d.countToken hit.text)) {}
  else {}

end Delimiter

/-- count every kind of delimiter in a line -/
def Tallies.ofLine (delimiters : List Delimiter) (text : Text) (commented : Nat → Bool) : Tallies :=
  ⟨delimiters.map fun d => d.count text commented⟩

end Linewise
