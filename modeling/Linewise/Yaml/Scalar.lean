/-
Scalars of YAML: plain, and between single or double quotes. A scalar may go on over several lines; a line end between
two lines counts as a space, and each empty line as a line end.
-/
import Linewise.Yaml.Scan

namespace Linewise.Yaml

/-- what stands for the given number of line ends between two parts of a scalar -/
def foldedBreaks (breaks : Nat) : Text := if breaks ≤ 1 then [' '] else List.replicate (breaks - 1) '\n'

/-- drop blanks at the end -/
def trimEnd (text : Text) : Text := (text.reverse.dropWhile Text.isIndent).reverse

/-- move over line ends and the blanks around them, and count the line ends. The first argument bounds them. -/
def skipBreaks : Nat → Nat → Scan → Nat × Scan
  | 0, breaks, s => (breaks, s)
  | fuel + 1, breaks, s =>
    let after := s.skipWhile Text.isIndent
    if after.peek = some '\n' then skipBreaks fuel (breaks + 1) after.next else (breaks, after)

/-! ## Plain scalars -/

/-- characters with a meaning inside brackets -/
def isFlowMark (c : Char) : Bool := [',', '[', ']', '\x7B', '\x7D'].contains c

/-- whether a plain scalar may begin here -/
def startsPlain (flow : Bool) (s : Scan) : Bool :=
  match s.peek with
  | none => false
  | some c =>
    if c = '-' then !isGap s.peekNext
    else if c = '?' ∨ c = ':' then !flow && !isGap s.peekNext
    else !isGap (some c) && !isFlowMark c && !(['#', '&', '*', '!', '|', '>', '\'', '"', '%', '@', '\x60'].contains c)

/-- the part of a plain scalar in one line, blanks at its end included; `gap` tells whether a blank stands before -/
def plainPart (flow gap : Bool) : Text → Text
  | [] => []
  | c :: rest =>
    if c = '\n' ∨ (c = '#' ∧ gap) ∨ (c = ':' ∧ isGap rest.head?) ∨ (flow ∧ isFlowMark c) then []
    else c :: plainPart flow (Text.isIndent c) rest

/-- the part of a plain scalar in one line -/
def readPlainPart (flow : Bool) (s : Scan) : Text × Scan :=
  let part := plainPart flow false s.rest
  (trimEnd part, ⟨s.rest.drop part.length, s.column + part.length⟩)

/-- whether a colon stands where none may stand inside brackets -/
def strayColon (flow : Bool) (part : Text) (s : Scan) : Bool :=
  flow && part.getLast? == some ':' && s.peek.any isFlowMark

/-- whether a tab stands before column `least` in the margin of a line -/
def earlyTab (least : Nat) (margin : Text) : Bool :=
  margin.contains '\t' && (margin.takeWhile (· != '\t')).length < least

/-- the further lines of a plain scalar: those in column `least` or beyond. The first argument bounds them. -/
def readPlainLines (flow : Bool) (least : Nat) : Nat → Text → Scan → Option (Text × Scan)
  | 0, text, s => some (text, s)
  | fuel + 1, text, s =>
    if s.peek ≠ some '\n' then some (text, s)
    else
      let (breaks, after) := skipBreaks s.rest.length 0 s
      let margins := (Text.splitOn '\n' (s.rest.take (s.rest.length - after.rest.length))).drop 1
      if !flow && margins.any (earlyTab least) then none
      else if after.atEnd || after.peek == some '#' || after.atColon || (!flow && after.column < least) then some (text, s)
      else if flow && after.peek.any isFlowMark then some (text, s)
      else
        let (part, after) := readPlainPart flow after
        readPlainLines flow least fuel (text ++ foldedBreaks breaks ++ part) after

/-- a plain scalar -/
def readPlain (flow : Bool) (least : Nat) (s : Scan) : Option (Text × Scan) :=
  let (part, after) := readPlainPart flow s
  if strayColon flow part after then none else readPlainLines flow least s.rest.length part after

/-! ## Quoted scalars -/

/-- go on behind the end of a line inside quotes -/
def foldQuoted (text : Text) (s : Scan) : Option (Text × Scan) :=
  let (breaks, after) := skipBreaks s.rest.length 0 s
  if after.atMarker then none else some (text ++ foldedBreaks breaks, after)

/-- characters inside quotes up to the next one that `special` holds of, blanks at the end of a line left out -/
def readRun (special : Char → Bool) (text : Text) (s : Scan) : Option (Text × Scan) :=
  let run := s.rest.takeWhile fun c => !special c && c != '\n'
  let after : Scan := ⟨s.rest.drop run.length, s.column + run.length⟩
  if after.peek = some '\n' then foldQuoted (text ++ trimEnd run) after else some (text ++ run, after)

/-- a scalar between single quotes, read from behind the first; a quote in it is written twice. The first argument bounds
its parts. -/
def readSingle : Nat → Text → Scan → Option (Text × Scan)
  | 0, _, _ => none
  | fuel + 1, text, s =>
    match s.rest with
    | [] => none
    | '\'' :: '\'' :: _ => readSingle fuel (text ++ ['\'']) s.next.next
    | '\'' :: _ => some (text, s.next)
    | _ =>
      match readRun (· == '\'') text s with
      | none => none
      | some (text, s) => readSingle fuel text s

/-- the value of so many hexadecimal digits -/
def readCode (digits : Nat) (s : Scan) : Option (Text × Scan) := do
  let code := s.rest.take digits
  let value ← if code.length = digits then Data.digits? 16 code else none
  if value.isValidChar then some ([Char.ofNat value], ⟨s.rest.drop digits, s.column + digits⟩) else none

/-- what an escape stands for, read from behind its backslash -/
def readEscape (s : Scan) : Option (Text × Scan) :=
  let char (c : Char) : Option (Text × Scan) := some ([c], s.next)
  match s.peek with
  | none => none
  | some c =>
    match c with
    | '0' => char '\x00'
    | 'a' => char '\x07'
    | 'b' => char '\x08'
    | 't' => char '\t'
    | '\t' => char '\t'
    | 'n' => char '\n'
    | 'v' => char '\x0B'
    | 'f' => char '\x0C'
    | 'r' => char '\r'
    | 'e' => char '\x1B'
    | ' ' => char ' '
    | '"' => char '"'
    | '/' => char '/'
    | '\\' => char '\\'
    | 'N' => char '\u0085'
    | '_' => char '\u00A0'
    | 'L' => char '\u2028'
    | 'P' => char '\u2029'
    | 'x' => readCode 2 s.next
    | 'u' => readCode 4 s.next
    | 'U' => readCode 8 s.next
    | '\n' => some ([], s.next.skipWhile Text.isIndent)
    | _ => none

/-- a scalar between double quotes, read from behind the first. The first argument bounds its parts. -/
def readDouble : Nat → Text → Scan → Option (Text × Scan)
  | 0, _, _ => none
  | fuel + 1, text, s =>
    match s.rest with
    | [] => none
    | '"' :: _ => some (text, s.next)
    | '\\' :: _ =>
      match readEscape s.next with
      | none => none
      | some (part, s) => readDouble fuel (text ++ part) s
    | _ =>
      match readRun (fun c => c == '"' || c == '\\') text s with
      | none => none
      | some (text, s) => readDouble fuel text s

/-- a scalar between quotes, if one begins here -/
def readQuoted (s : Scan) : Option (Text × Scan) :=
  match s.peek with
  | some '\'' => readSingle (s.rest.length + 1) [] s.next
  | some '"' => readDouble (s.rest.length + 1) [] s.next
  | _ => none

/-- whether a scalar between quotes begins here -/
def atQuote (s : Scan) : Bool := s.peek == some '\'' || s.peek == some '"'

end Linewise.Yaml
