/-
The atoms of a pattern: escapes such as `\d`, `\b` or `\x41`, and bracket expressions such as `[a-z&&[^b]]`.
-/
import Linewise.Regex.Escape
import Linewise.Regex.Mode

namespace Linewise.Regex

/-- what an escape stands for -/
inductive Atom where
  | char (c : Char)
  | set (s : CharSet)
  | anchor (a : Anchor)
  deriving DecidableEq, Repr

namespace Atom

/-- value of a hexadecimal digit -/
def hexDigit? (c : Char) : Option Nat :=
  if '0' ≤ c ∧ c ≤ '9' then some (c.toNat - '0'.toNat)
  else if 'a' ≤ c ∧ c ≤ 'f' then some (c.toNat - 'a'.toNat + 10)
  else if 'A' ≤ c ∧ c ≤ 'F' then some (c.toNat - 'A'.toNat + 10)
  else none

/-- the character of a code point -/
def ofCode? (n : Nat) : Option Atom :=
  if n.isValidChar then some (char (Char.ofNat n)) else none

/-- exactly so many hexadecimal digits -/
def readDigits (mode : Mode) : Nat → Nat → Text → Option (Nat × Text)
  | 0, value, text => some (value, text)
  | n + 1, value, text =>
    match mode.skip text with
    | [] => none
    | c :: rest =>
      match hexDigit? c with
      | none => none
      | some digit => readDigits mode n (16 * value + digit) rest

/-- hexadecimal digits up to a closing brace -/
def readBraced (mode : Mode) : Nat → Option Nat → Text → Option (Nat × Text)
  | 0, _, _ => none
  | fuel + 1, value, text =>
    match mode.skip text with
    | [] => none
    | '\x7D' :: rest => value.map (·, rest)
    | c :: rest =>
      match hexDigit? c with
      | none => none
      | some digit => readBraced mode fuel (some (16 * value.getD 0 + digit)) rest

/-- the digits behind `\x`, `\u` or `\U`: a fixed number of them, or any number in braces -/
def readHex (mode : Mode) (digits : Nat) (text : Text) : Option (Atom × Text) := do
  let (value, rest) ← match mode.skip text with
    | '\x7B' :: rest => readBraced mode (rest.length + 1) none rest
    | rest => readDigits mode digits 0 rest
  let atom ← ofCode? value
  return (atom, rest)

/-- letters and hyphens that may name a word boundary -/
def isEdgeName (c : Char) : Bool := c.isAlpha || c == '-'

/-- the word boundaries that a name in braces selects -/
def namedEdge? (name : Text) : Option Anchor :=
  if name = "start".toList then some .wordStart
  else if name = "end".toList then some .wordEnd
  else if name = "start-half".toList then some .wordStartHalf
  else if name = "end-half".toList then some .wordEndHalf
  else none

/-- what follows `\b`: the name of a special word boundary in braces, or nothing that belongs to it -/
def readEdge (mode : Mode) (text : Text) : Option (Atom × Text) :=
  match text with
  | '\x7B' :: inner =>
    match mode.skip inner with
    | [] => none
    | c :: rest =>
      if isEdgeName c then
        match namedEdge? ((c :: rest).takeWhile isEdgeName), rest.dropWhile isEdgeName with
        | some edge, '\x7D' :: rest => some (anchor edge, rest)
        | _, _ => none
      else some (anchor .wordEdge, text)
  | _ => some (anchor .wordEdge, text)

/-- the atom behind a backslash -/
def readEscape (mode : Mode) : Text → Option (Atom × Text)
  | [] => none
  | c :: rest =>
    match c with
    | 'd' => some (set .decimal, rest)
    | 'D' => some (set (.compl .decimal), rest)
    | 's' => some (set .blank, rest)
    | 'S' => some (set (.compl .blank), rest)
    | 'w' => some (set .word, rest)
    | 'W' => some (set (.compl .word), rest)
    | 'x' => readHex mode 2 rest
    | 'u' => readHex mode 4 rest
    | 'U' => readHex mode 8 rest
    | 'a' => some (char '\x07', rest)
    | 'f' => some (char '\x0C', rest)
    | 't' => some (char '\t', rest)
    | 'n' => some (char '\n', rest)
    | 'r' => some (char '\r', rest)
    | 'v' => some (char '\x0B', rest)
    | 'A' => some (anchor .textStart, rest)
    | 'z' => some (anchor .textEnd, rest)
    | 'b' => readEdge mode rest
    | 'B' => some (anchor .noWordEdge, rest)
    | '<' => some (anchor .wordStart, rest)
    | '>' => some (anchor .wordEnd, rest)
    | c => if c.toNat < 0x80 && !c.isAlphanum then some (char c, rest) else none

/-- the expression of an atom that stands on its own -/
def toExpr (mode : Mode) : Atom → Expr
  | char c => mode.literal c
  | set s => .set s
  | anchor a => .anchor a

/-- the characters of an atom inside a bracket expression -/
def toSet? : Atom → Option CharSet
  | char c => some (.single c)
  | set s => some s
  | anchor _ => none

end Atom

/-- the operations between the parts of a bracket expression -/
inductive SetOp where
  | inter
  | diff
  | symmDiff
  deriving DecidableEq, Repr

/-- apply an operation -/
def SetOp.apply : SetOp → CharSet → CharSet → CharSet
  | inter, s, t => .inter s t
  | diff, s, t => .diff s t
  | symmDiff, s, t => .symmDiff s t

namespace Bracket

/-- the operation still waiting for its right side, applied to it; operations associate to the left -/
def finish (mode : Mode) (pending : Option (SetOp × CharSet)) (items : CharSet) : CharSet :=
  match pending with
  | none => items
  | some (op, left) => op.apply (left.fold mode.ignoreCase) (items.fold mode.ignoreCase)

/-- a named set `[:name:]` -/
def readNamed (mode : Mode) (text : Text) : Option (CharSet × Text) :=
  match text with
  | '[' :: ':' :: body =>
    let negated := body.head? == some '^'
    let body := if negated then body.drop 1 else body
    let name := body.takeWhile (· != ':')
    match body.dropWhile (· != ':') with
    | ':' :: ']' :: rest =>
      (CharSet.ofName? (String.ofList name)).map fun s => ((s.fold mode.ignoreCase).negate negated, rest)
    | _ => none
  | _ => none

/-- one character or escape -/
def readAtom (mode : Mode) : Text → Option (Atom × Text)
  | [] => none
  | '\\' :: rest => Atom.readEscape mode rest
  | c :: rest => some (.char c, rest)

/-- one item: a character, an escape or a range -/
def readItem (mode : Mode) (text : Text) : Option (CharSet × Text) := do
  let (first, rest) ← readAtom mode text
  match mode.skip rest with
  | [] => none
  | '-' :: after =>
    match mode.skip after with
    | [] => none
    | c :: after' =>
      if c = ']' ∨ c = '-' then first.toSet?.map (·, '-' :: after)
      else
        match first, readAtom mode (c :: after') with
        | .char low, some (.char high, rest) => if low ≤ high then some (.range low high, rest) else none
        | _, _ => none
  | rest => first.toSet?.map (·, rest)

/-- hyphens in front count as themselves -/
def readHyphens (mode : Mode) : Nat → CharSet → Text → CharSet × Text
  | 0, items, text => (items, text)
  | fuel + 1, items, text =>
    match mode.skip text with
    | '-' :: rest => readHyphens mode fuel (.union items (.single '-')) rest
    | rest => (items, rest)

/-- what stands in front of the items: a negation, hyphens, and a closing bracket that counts as itself -/
def readFront (mode : Mode) (text : Text) : Bool × CharSet × Text :=
  let text := mode.skip text
  let negated := text.head? == some '^'
  let text := mode.skip (if negated then text.drop 1 else text)
  match readHyphens mode text.length .empty text with
  | (.empty, ']' :: rest) => (negated, .single ']', rest)
  | (items, rest) => (negated, items, rest)

/-- the items up to the closing bracket; the first argument bounds them -/
def readItems (mode : Mode) : Nat → Option (SetOp × CharSet) → CharSet → Text → Option (CharSet × Text)
  | 0, _, _, _ => none
  | fuel + 1, pending, items, text =>
    match mode.skip text with
    | [] => none
    | ']' :: rest => some (finish mode pending items, rest)
    | '&' :: '&' :: rest => readItems mode fuel (some (.inter, finish mode pending items)) .empty rest
    | '-' :: '-' :: rest => readItems mode fuel (some (.diff, finish mode pending items)) .empty rest
    | '~' :: '~' :: rest => readItems mode fuel (some (.symmDiff, finish mode pending items)) .empty rest
    | '[' :: rest =>
      match readNamed mode ('[' :: rest) with
      | some (s, rest) => readItems mode fuel pending (.union items s) rest
      | none =>
        let (negated, front, rest) := readFront mode rest
        match readItems mode fuel none front rest with
        | none => none
        | some (s, rest) =>
          readItems mode fuel pending (.union items ((s.fold mode.ignoreCase).negate negated)) rest
    | rest =>
      match readItem mode rest with
      | none => none
      | some (s, rest) => readItems mode fuel pending (.union items s) rest

/-- the set of a bracket expression, read from behind its opening bracket -/
def read (mode : Mode) (text : Text) : Option (CharSet × Text) := do
  let (negated, front, rest) := readFront mode text
  let (s, rest) ← readItems mode (text.length + 1) none front rest
  return ((s.fold mode.ignoreCase).negate negated, rest)

end Bracket

end Linewise.Regex
