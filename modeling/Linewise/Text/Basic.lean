/-
Text as a list of characters, measured in UTF-8 bytes.

Every offset of the library counts bytes. `Text.width` measures, `Text.cut?` splits at an offset that falls on a
character boundary, `Text.splitLines` and `Text.joinLines` go between a text and its lines.
-/
namespace Linewise

/-- the characters of a line, a document or a pattern -/
abbrev Text := List Char

namespace Text

/-- bytes that the text takes in UTF-8 -/
def width : Text → Nat
  | [] => 0
  | c :: cs => c.utf8Size + width cs

@[simp] theorem width_nil : width [] = 0 := rfl

@[simp] theorem width_cons (c : Char) (cs : Text) : width (c :: cs) = c.utf8Size + width cs := rfl

@[simp] theorem width_append (s t : Text) : width (s ++ t) = width s + width t := by
  induction s with
  | nil => simp
  | cons c cs ih => simp [ih, Nat.add_assoc]

/-- split at byte `offset`, if that is a character boundary of the text -/
def cut? : Nat → Text → Option (Text × Text)
  | 0, text => some ([], text)
  | _ + 1, [] => none
  | n + 1, c :: cs =>
    if c.utf8Size ≤ n + 1 then (cut? (n + 1 - c.utf8Size) cs).map fun (front, back) => (c :: front, back)
    else none

theorem cut?_cons (offset : Nat) (c : Char) (cs : Text) :
    cut? (c.utf8Size + offset) (c :: cs) = (cut? offset cs).map fun (front, back) => (c :: front, back) := by
  have hsucc : c.utf8Size + offset = c.utf8Size + offset - 1 + 1 := by
    have hpos := c.utf8Size_pos
    omega
  rw [hsucc, cut?, ← hsucc, if_pos (Nat.le_add_right _ _), Nat.add_sub_cancel_left]

/-- the pieces of the text between its `separator`s -/
def splitOn (separator : Char) : Text → List Text
  | [] => [[]]
  | c :: cs =>
    if c = separator then [] :: splitOn separator cs
    else
      match splitOn separator cs with
      | [] => [[c]]
      | piece :: pieces => (c :: piece) :: pieces

/-- drop one carriage return at the end -/
def dropReturn (line : Text) : Text :=
  if line.getLast? = some '\r' then line.dropLast else line

/-- the lines of a text; a line ends at a line feed, with or without a carriage return before it -/
def splitLines (text : Text) : List Text :=
  (splitOn '\n' text).map dropReturn

/-- lines with a line feed between each two -/
def joinLines (lines : List Text) : Text :=
  ['\n'].intercalate lines

/-- a space or a tab -/
def isIndent (c : Char) : Bool :=
  c == ' ' || c == '\t'

/-- the spaces and tabs in front -/
def margin (text : Text) : Text :=
  text.takeWhile isIndent

/-- the text without the spaces and tabs in front -/
def content (text : Text) : Text :=
  text.dropWhile isIndent

/-- byte offset of the first character that is neither space nor tab -/
def firstContent? (text : Text) : Option Nat :=
  if (content text).isEmpty then none else some (width (margin text))

end Text

end Linewise
