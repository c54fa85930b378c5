/-
Hidden rows: from rows of the document to rows of the document with nothing hidden, and back.

Rows are natural numbers unless other numbers are named. A program counts them in words, which go on with zero after the
greatest one; the same definitions say what it does, and sums of words are the words of sums (`HiddenRows.words`).
-/
namespace Linewise

/-- for each collapsed row, from the top: the row, and how many lines are hidden up to it and behind it -/
structure HiddenRows (N : Type := Nat) where
  entries : List (N × N) := []
  deriving DecidableEq, Repr, Inhabited

namespace HiddenRows

variable {N : Type}

/-- how many lines are hidden at all -/
def total [OfNat N 0] (h : HiddenRows N) : N := (h.entries.getLast?.map (·.2)).getD 0

/-- add a collapsed row below the others -/
def push [OfNat N 0] [Add N] (h : HiddenRows N) (row hidden : N) : HiddenRows N :=
  ⟨h.entries ++ [(row, h.total + hidden)]⟩

/-- how many rows are collapsed -/
def size (h : HiddenRows N) : Nat := h.entries.length

/-- whether no row is collapsed -/
def isEmpty (h : HiddenRows N) : Bool := h.entries.isEmpty

/-- how many lines are hidden behind rows above `row` -/
def above [OfNat N 0] [LT N] [DecidableLT N] (h : HiddenRows N) (row : N) : N :=
  (((h.entries.takeWhile fun entry => entry.1 < row).getLast?).map (·.2)).getD 0

/-- the row that `row` would be if nothing were hidden -/
def logical [OfNat N 0] [Add N] [LT N] [DecidableLT N] (h : HiddenRows N) (row : N) : N := row + h.above row

section Search

variable [Add N] [Sub N] [LE N] [DecidableLE N]

/-- the search for a row, with `before` lines hidden above the entries -/
def rowFrom (before : N) : List (N × N) → N → N
  | [], logical => logical - before
  | (row, total) :: entries, logical =>
    if logical ≤ row + before then logical - before
    else if logical ≤ row + before + (total - before) then row
    else rowFrom total entries logical

/-- the row that shows a line of the document with nothing hidden, or hides it -/
def rowOf [OfNat N 0] (h : HiddenRows N) (logical : N) : N := rowFrom 0 h.entries logical

end Search

/-- the table in words -/
def words (h : HiddenRows) : HiddenRows UInt64 := ⟨h.entries.map fun (row, total) => (.ofNat row, .ofNat total)⟩

end HiddenRows

end Linewise
