/-
What a regular expression matches, as an ordered list of ends.

`Expr.ends e c` lists the places where a match of `e` begun at `c` may end, best first, each once. The match itself is
the head of the list. A sequence goes on from every end of its first part, an alternative appends the ends of its
second branch, and a repetition walks over the places its rounds reach (`Walk`): it enters no place twice, and after
its first round a round that consumes nothing is dropped, so it stops. Where the part repeated may match nothing and would
rather do so, as in `(x*?)*`, the library that programs match with may put another end first.
-/
import Linewise.Regex.Expr

namespace Linewise.Regex

/-- a place in a text: its byte offset, the character before it and the text after it -/
structure Cursor where
  offset : Nat
  before : Option Char
  rest : Text
  deriving DecidableEq, Repr

namespace Cursor

/-- the place before the first character -/
def start (text : Text) : Cursor := ⟨0, none, text⟩

/-- the place after the character `x` that stands here, with `rest` behind it -/
def past (c : Cursor) (x : Char) (rest : Text) : Cursor := ⟨c.offset + x.utf8Size, some x, rest⟩

/-- one character on -/
def next? (c : Cursor) : Option Cursor :=
  match c.rest with
  | [] => none
  | x :: rest => some (c.past x rest)

/-- the place after the last character -/
def toEnd (c : Cursor) : Cursor :=
  ⟨c.offset + Text.width c.rest, c.rest.getLast?.or c.before, []⟩

/-- whether a word character stands before the place -/
def wordBefore (c : Cursor) : Bool := c.before.any Text.isWord

/-- whether a word character stands after the place -/
def wordAfter (c : Cursor) : Bool := c.rest.head?.any Text.isWord

end Cursor

/-- whether the condition holds at the place -/
def Anchor.holds (a : Anchor) (c : Cursor) : Bool :=
  let before := c.before
  let after := c.rest.head?
  match a with
  | .textStart => before.isNone
  | .textEnd => after.isNone
  | .lineStart => before.isNone || before == some '\n'
  | .lineEnd => after.isNone || after == some '\n'
  | .lineStartCr => before.isNone || before == some '\n' || (before == some '\r' && after != some '\n')
  | .lineEndCr => after.isNone || after == some '\r' || (after == some '\n' && before != some '\r')
  | .wordEdge => c.wordBefore != c.wordAfter
  | .noWordEdge => c.wordBefore == c.wordAfter
  | .wordStart => !c.wordBefore && c.wordAfter
  | .wordEnd => c.wordBefore && !c.wordAfter
  | .wordStartHalf => !c.wordBefore
  | .wordEndHalf => !c.wordAfter

/-- each place once, at its first occurrence; `seen` has the bit of every offset met so far -/
def arrivals (seen : Nat) : List Cursor → List Cursor
  | [] => []
  | c :: cs =>
    if seen.testBit c.offset then arrivals seen cs
    else c :: arrivals (seen ||| 1 <<< c.offset) cs

/-- a walk over the places that the rounds of a repetition reach: the offsets entered as bits, and the ends found,
latest first -/
structure Walk where
  entered : Nat := 0
  found : List Cursor := []

namespace Walk

/-- whether the place was entered before -/
def knows (w : Walk) (c : Cursor) : Bool := w.entered.testBit c.offset

/-- enter a place -/
def enter (w : Walk) (c : Cursor) : Walk := { w with entered := w.entered ||| 1 <<< c.offset }

/-- end the repetition at a place -/
def stop (w : Walk) (c : Cursor) : Walk := { w with found := c :: w.found }

/-- end here or go on with rounds that consume, in the order of preference; the first argument bounds the rounds -/
def rounds (body : Cursor → List Cursor) (greedy : Bool) : Nat → Walk → Cursor → Walk
  | 0, w, _ => w
  | fuel + 1, w, c =>
    if w.knows c then w
    else
      let further (w : Walk) : Walk :=
        (body c).foldl (fun w next => if next.offset = c.offset then w else rounds body greedy fuel w next) w
      if greedy then (further (w.enter c)).stop c else further ((w.enter c).stop c)

/-- one round, which may consume nothing, and then as `rounds` -/
def firstRound (body : Cursor → List Cursor) (greedy : Bool) (c : Cursor) : Walk :=
  (body c).foldl
    (fun w next =>
      if next.offset = c.offset then (if w.knows c then w else (w.enter c).stop c)
      else rounds body greedy c.rest.length w next)
    {}

end Walk

/-- ends after one round or more -/
def plusEnds (body : Cursor → List Cursor) (greedy : Bool) (c : Cursor) : List Cursor :=
  (Walk.firstRound body greedy c).found.reverse

/-- ends after no round, or as `inner` -/
def optionalEnds (greedy : Bool) (c : Cursor) (inner : List Cursor) : List Cursor :=
  arrivals 0 (if greedy then inner ++ [c] else c :: inner)

/-- ends after at most so many rounds -/
def upToEnds (body : Cursor → List Cursor) (greedy : Bool) : Nat → Cursor → List Cursor
  | 0, c => [c]
  | n + 1, c => optionalEnds greedy c ((body c).flatMap (upToEnds body greedy n))

/-- ends after exactly so many rounds from each of the places -/
def exactEnds (body : Cursor → List Cursor) : Nat → List Cursor → List Cursor
  | 0, cs => cs
  | n + 1, cs => if cs.isEmpty then [] else exactEnds body n (arrivals 0 (cs.flatMap body))

/-- ends after `least` rounds or more, up to `most` -/
def manyEnds (body : Cursor → List Cursor) (least : Nat) (most : Option Nat) (greedy : Bool) (c : Cursor) :
    List Cursor :=
  match most, least with
  | some most, least => arrivals 0 ((exactEnds body least [c]).flatMap (upToEnds body greedy (most - least)))
  | none, 0 => optionalEnds greedy c (plusEnds body greedy c)
  | none, least + 1 => arrivals 0 ((exactEnds body least [c]).flatMap (plusEnds body greedy))

/-- the places where a match begun at the given place may end, best first, each once -/
def Expr.ends : Expr → Cursor → List Cursor
  | .empty, c => [c]
  | .set s, c =>
    match c.rest with
    | [] => []
    | x :: rest => if s.mem x then [c.past x rest] else []
  | .anchor a, c => if a.holds c then [c] else []
  | .seq a b, c => arrivals 0 ((a.ends c).flatMap b.ends)
  | .alt a b, c => arrivals 0 (a.ends c ++ b.ends c)
  | .many body least most greedy, c => manyEnds body.ends least most greedy c

end Linewise.Regex
