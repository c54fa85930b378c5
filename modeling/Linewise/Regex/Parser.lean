/-
Reading a pattern into a regular expression.

The reader keeps the group it is in (`Level`) and a stack of the groups around it, and takes one part of the pattern
at a time (`Reader.step?`). It gives up where the pattern has no meaning: an unclosed group or bracket, a repetition of
nothing, look-around, a back-reference, an unknown escape or switch.

Of the syntax of the library that programs compile their patterns with, this is left out:
- sets of characters by a property of theirs (`\pL`, `\p{Greek}`) and turning Unicode off (`(?-u)`): the reader gives up,
  where the library reads them;
- the limits on how deep groups are nested and on how large a compiled pattern is: the reader has none, where the library
  gives up.
What `\w`, `\d` and the switch `i` stand for is told by tables of Unicode 16 (`Text.wordRanges`, `Text.digitRanges`,
`Text.caseRows`).
-/
import Linewise.Regex.Atom

namespace Linewise.Regex

/-- a part of a branch; a directive cannot be repeated -/
structure Piece where
  expr : Expr
  repeatable : Bool := true

/-- a group being read: the switches to restore after it, its finished branches and the parts of the current branch,
latest first -/
structure Level where
  outerMode : Mode
  branches : List Expr := []
  pieces : List Piece := []

namespace Level

/-- the current branch -/
def current (level : Level) : Expr :=
  .join (level.pieces.reverse.map (·.expr))

/-- the group's expression -/
def expr (level : Level) : Expr :=
  .branch (level.current :: level.branches).reverse

end Level

/-- the state of reading: switches in force, names given to groups, the group being read and those around it -/
structure Reader where
  mode : Mode
  names : List Text := []
  level : Level
  outer : List Level := []

namespace Reader

/-- append a part to the current branch -/
def push (r : Reader) (e : Expr) (repeatable : Bool) : Reader :=
  { r with level := { r.level with pieces := ⟨e, repeatable⟩ :: r.level.pieces } }

/-- begin the next branch -/
def nextBranch (r : Reader) : Reader :=
  { r with level := { r.level with branches := r.level.current :: r.level.branches, pieces := [] } }

/-- begin a group with its own switches -/
def openGroup (r : Reader) (mode : Mode) : Reader :=
  { r with mode, level := { outerMode := r.mode }, outer := r.level :: r.outer }

/-- end the group -/
def closeGroup? (r : Reader) : Option Reader :=
  match r.outer with
  | [] => none
  | level :: outer => some ({ r with mode := r.level.outerMode, level, outer }.push r.level.expr true)

/-- repeat the part read last -/
def repeat? (r : Reader) (least : Nat) (most : Option Nat) (greedy : Bool) : Option Reader :=
  match r.level.pieces with
  | ⟨e, true⟩ :: pieces =>
    some ({ r with level := { r.level with pieces } }.push (.many e least most (greedy != r.mode.swapGreed)) true)
  | _ => none

/-- a question mark behind a repetition makes it lazy -/
def readGreed (text : Text) : Bool × Text :=
  match text with
  | '?' :: rest => (false, rest)
  | _ => (true, text)

/-- the digits of a count, with white space around them, and what follows -/
def readCount (text : Text) : Option Nat × Text :=
  let text := text.dropWhile Text.isBlank
  let digits := text.takeWhile Char.isDigit
  let value := digits.foldl (fun n c => 10 * n + (c.toNat - '0'.toNat)) 0
  (if digits.isEmpty ∨ Nat.pow 2 32 ≤ value then none else some value,
    (text.dropWhile Char.isDigit).dropWhile Text.isBlank)

/-- the bounds of a counted repetition, read from behind its opening brace -/
def readBounds (mode : Mode) (text : Text) : Option ((Nat × Option Nat) × Text) :=
  let (first, rest) := readCount (mode.skip text)
  match first, rest with
  | some least, '\x7D' :: rest => some ((least, some least), rest)
  | some least, ',' :: rest =>
    match mode.skip rest with
    | '\x7D' :: rest => some ((least, none), rest)
    | rest =>
      match readCount rest with
      | (some most, '\x7D' :: rest) => if least ≤ most then some ((least, some most), rest) else none
      | _ => none
  | _, _ => none

/-- switch letters up to `:` or `)`, in the order written; no letter and no hyphen may stand twice, and a hyphen has a
letter behind it -/
def readSwitches (mode : Mode) (on : Bool) (seen : List Char) : Text → Option (Mode × List Char × Char × Text)
  | [] => none
  | c :: rest =>
    if c = ':' ∨ c = ')' then
      if seen.head? = some '-' then none else some (mode, seen, c, rest)
    else if seen.contains c then none
    else if c = '-' then readSwitches mode false (c :: seen) rest
    else
      match mode.set? c on with
      | none => none
      | some mode => readSwitches mode on (c :: seen) rest

/-- whether the character may stand in the name of a group -/
def isNameChar (first : Bool) (c : Char) : Bool :=
  if first then c == '_' || (Text.isWord c && !Text.isDecimal c)
  else Text.isWord c || c == '.' || c == '[' || c == ']'

/-- the name of a group up to `>` -/
def readName (text : Text) : Option (Text × Text) :=
  let name := text.takeWhile (· != '>')
  match text.dropWhile (· != '>'), name with
  | '>' :: rest, first :: others =>
    if isNameChar true first && others.all (isNameChar false) then some (name, rest) else none
  | _, _ => none

/-- begin a group with a name no other group has -/
def openNamed? (r : Reader) (text : Text) : Option (Reader × Text) := do
  let (name, rest) ← readName text
  if r.names.contains name then none
  else some ({ r with names := name :: r.names }.openGroup r.mode, rest)

/-- what an opening parenthesis begins: a group, or a directive that changes the switches -/
def parenthesis? (r : Reader) (text : Text) : Option (Reader × Text) :=
  match r.mode.skip text with
  | '?' :: '=' :: _ => none
  | '?' :: '!' :: _ => none
  | '?' :: '<' :: '=' :: _ => none
  | '?' :: '<' :: '!' :: _ => none
  | '?' :: 'P' :: '<' :: rest => r.openNamed? rest
  | '?' :: '<' :: rest => r.openNamed? rest
  | '?' :: rest =>
    match readSwitches r.mode true [] rest with
    | none => none
    | some (mode, seen, last, rest) =>
      if last = ':' then some (r.openGroup mode, rest)
      else if seen.isEmpty then none
      else some ({ r with mode }.push .empty false, rest)
  | rest => some (r.openGroup r.mode, rest)

/-- take the part that begins with `c` -/
def step? (r : Reader) (c : Char) (rest : Text) : Option (Reader × Text) :=
  match c with
  | '(' => r.parenthesis? rest
  | ')' => r.closeGroup?.map (·, rest)
  | '|' => some (r.nextBranch, rest)
  | '[' => (Bracket.read r.mode rest).map fun (s, rest) => (r.push (.set s) true, rest)
  | '?' => let (greedy, rest) := readGreed rest; (r.repeat? 0 (some 1) greedy).map (·, rest)
  | '*' => let (greedy, rest) := readGreed rest; (r.repeat? 0 none greedy).map (·, rest)
  | '+' => let (greedy, rest) := readGreed rest; (r.repeat? 1 none greedy).map (·, rest)
  | '\x7B' =>
    match readBounds r.mode rest with
    | none => none
    | some ((least, most), rest) =>
      let (greedy, rest) := readGreed (r.mode.skip rest)
      (r.repeat? least most greedy).map (·, rest)
  | '\\' => (Atom.readEscape r.mode rest).map fun (atom, rest) => (r.push (atom.toExpr r.mode) true, rest)
  | '.' => some (r.push r.mode.dot true, rest)
  | '^' => some (r.push r.mode.caret true, rest)
  | '$' => some (r.push r.mode.dollar true, rest)
  | c => some (r.push (r.mode.literal c) true, rest)

/-- read part after part; each takes a character or more, so the first argument bounds them -/
def run : Nat → Reader → Text → Option Expr
  | 0, _, _ => none
  | fuel + 1, r, text =>
    match r.mode.skip text with
    | [] => if r.outer.isEmpty then some r.level.expr else none
    | c :: rest =>
      match r.step? c rest with
      | none => none
      | some (r, rest) => run fuel r rest

end Reader

/-- the regular expression of a pattern, or `none` if the pattern has no meaning -/
def parse? (source : Text) (ignoreCase : Bool) : Option Expr :=
  let mode : Mode := { ignoreCase }
  Reader.run (source.length + 1) { mode, level := { outerMode := mode } } source

end Linewise.Regex
