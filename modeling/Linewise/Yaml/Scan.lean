/-
Places in a YAML text, and moving over what stands between its parts: blanks, comments and line ends.
-/
import Linewise.Data.Node

namespace Linewise.Yaml

/-- a place: the text from there on, and its column -/
structure Scan where
  rest : Text
  column : Nat := 0
  deriving DecidableEq, Repr

/-- whether a character is a line end or there is none -/
def endsLine : Option Char → Bool
  | none => true
  | some c => c == '\n'

/-- whether a character is a space, a tab or a line end, or there is none -/
def isGap (c : Option Char) : Bool := endsLine c || c.any Text.isIndent

namespace Scan

/-- the next character -/
def peek (s : Scan) : Option Char := s.rest.head?

/-- the character after the next one -/
def peekNext (s : Scan) : Option Char := s.rest.tail.head?

/-- move over one character -/
def next (s : Scan) : Scan :=
  match s.rest with
  | [] => s
  | c :: rest => ⟨rest, if c = '\n' then 0 else s.column + 1⟩

/-- move over characters of a line as long as `p` holds of them -/
def skipWhile (p : Char → Bool) (s : Scan) : Scan :=
  ⟨s.rest.dropWhile p, s.column + (s.rest.takeWhile p).length⟩

/-- move over a comment, if there is one, to the end of the line -/
def skipComment (s : Scan) : Scan :=
  if s.peek = some '#' then s.skipWhile (· != '\n') else s

/-- whether a line with a document marker begins here -/
def atMarker (s : Scan) : Bool :=
  s.column == 0 && (['-', '-', '-'].isPrefixOf s.rest || ['.', '.', '.'].isPrefixOf s.rest) && isGap (s.rest.drop 3).head?

/-- whether the document ends here -/
def atEnd (s : Scan) : Bool := s.rest.isEmpty || s.atMarker

/-- whether the mark of a list item stands here -/
def atDash (s : Scan) : Bool := s.peek == some '-' && isGap s.peekNext

/-- whether a colon that ends a key stands here -/
def atColon (s : Scan) : Bool := s.peek == some ':' && isGap s.peekNext

/-- move over blanks and comments to the next part, from the beginning of a line on; a tab in front of a part is
refused. The first argument bounds the lines. -/
def toPart : Nat → Scan → Option Scan
  | 0, s => some s
  | fuel + 1, s =>
    let s := (s.skipWhile (· == ' ')).skipComment
    match s.peek with
    | some '\n' => toPart fuel s.next
    | some '\t' => none
    | _ => some s

/-- move over blanks and a comment up to the end of the line, which must hold nothing else, and on to the next part -/
def finishLine (s : Scan) : Option Scan :=
  let s := (s.skipWhile Text.isIndent).skipComment
  match s.peek with
  | none => some s
  | some '\n' => toPart s.rest.length s.next
  | _ => none

/-- move over blanks, comments and line ends inside brackets. The first argument bounds the lines. -/
def skipGaps : Nat → Scan → Scan
  | 0, s => s
  | fuel + 1, s =>
    let s := (s.skipWhile Text.isIndent).skipComment
    if s.peek = some '\n' then skipGaps fuel s.next else s

/-- the next part inside brackets -/
def inside (s : Scan) : Scan := skipGaps (s.rest.length + 1) s

end Scan

end Linewise.Yaml
