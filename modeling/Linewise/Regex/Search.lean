/-
Searching a text for the matches of a regular expression.

The leftmost place with a match wins (`Expr.find?`); `Expr.hits` lists the matches of a whole text from left to right.
A match that is empty and lies where the one before it ended is passed over, and the search resumes one character
later.
-/
import Linewise.Regex.Matching

namespace Linewise.Regex

/-- a match: the place where it begins and the place where it ends -/
structure Hit where
  start : Cursor
  stop : Cursor
  deriving DecidableEq, Repr

namespace Hit

/-- whether nothing is matched -/
def isEmpty (h : Hit) : Bool := h.start.offset == h.stop.offset

/-- the text matched -/
def text (h : Hit) : Text := h.start.rest.take (h.start.rest.length - h.stop.rest.length)

end Hit

namespace Expr

/-- the best match that begins at the place -/
def matchAt? (e : Expr) (c : Cursor) : Option Hit :=
  (e.ends c).head?.map (Hit.mk c)

/-- the match at the first place with an accepted one, at or after the given place -/
def searchFrom? (e : Expr) (accept : Hit → Bool) (offset : Nat) (before : Option Char) : Text → Option Hit
  | [] => (e.matchAt? ⟨offset, before, []⟩).filter accept
  | x :: rest =>
    match (e.matchAt? ⟨offset, before, x :: rest⟩).filter accept with
    | some hit => some hit
    | none => searchFrom? e accept (offset + x.utf8Size) (some x) rest

/-- the leftmost match at or after the place -/
def find? (e : Expr) (c : Cursor) : Option Hit :=
  e.searchFrom? (fun _ => true) c.offset c.before c.rest

/-- the leftmost match at or after the place among the places whose match is not empty -/
def findNonempty? (e : Expr) (c : Cursor) : Option Hit :=
  e.searchFrom? (fun hit => !hit.isEmpty) c.offset c.before c.rest

/-- whether the text holds a match -/
def accepts (e : Expr) (text : Text) : Bool :=
  (e.find? (.start text)).isSome

/-- the match that follows one that ended at the place -/
def findAfter? (e : Expr) (c : Cursor) : Option Hit :=
  match e.find? c with
  | none => none
  | some hit =>
    if hit.stop.offset = c.offset then c.next?.bind e.find?
    else some hit

/-- the matches that follow one that ended at the place; each ends further on, so the first argument bounds them -/
def hitsAfter (e : Expr) : Nat → Cursor → List Hit
  | 0, _ => []
  | fuel + 1, c =>
    match e.findAfter? c with
    | none => []
    | some hit => hit :: e.hitsAfter fuel hit.stop

/-- the matches of a text from left to right -/
def hits (e : Expr) (text : Text) : List Hit :=
  match e.find? (.start text) with
  | none => []
  | some hit => hit :: e.hitsAfter text.length hit.stop

end Expr

end Linewise.Regex
