/-
Regular expressions without captures, look-around or back-references.

Branches of an alternative are ordered: the earlier one is preferred. A repetition is greedy (more rounds are
preferred) or lazy (fewer are).
-/
import Linewise.Regex.CharSet

namespace Linewise.Regex

/-- a condition on the place between two characters -/
inductive Anchor where
  | textStart
  | textEnd
  | lineStart
  | lineEnd
  | lineStartCr
  | lineEndCr
  | wordEdge
  | noWordEdge
  | wordStart
  | wordEnd
  | wordStartHalf
  | wordEndHalf
  deriving DecidableEq, Repr

/-- a regular expression -/
inductive Expr where
  | empty
  | set (s : CharSet)
  | anchor (a : Anchor)
  | seq (a b : Expr)
  | alt (a b : Expr)
  | many (body : Expr) (least : Nat) (most : Option Nat) (greedy : Bool)
  deriving DecidableEq, Repr

namespace Expr

/-- one character -/
def char (c : Char) : Expr := set (.single c)

/-- the expressions one after the other -/
def join : List Expr → Expr
  | [] => empty
  | [e] => e
  | e :: es => seq e (join es)

/-- the expressions as branches, best first -/
def branch : List Expr → Expr
  | [] => empty
  | [e] => e
  | e :: es => alt e (branch es)

/-- the characters of a text one after the other -/
def literal (text : Text) : Expr :=
  join (text.map char)

end Expr

end Linewise.Regex
