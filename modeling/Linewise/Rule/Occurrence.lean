/-
Where a rule matches in one text, its children left aside.
-/
import Linewise.Rule.Basic

namespace Linewise

open Regex (Cursor Expr Hit)

/-- the matches of a rule in a text, and whether the last one goes on in the next line -/
structure Occurrences where
  hits : List Hit
  isOpen : Bool
  deriving DecidableEq, Repr

namespace Occurrences

/-- no match -/
def none : Occurrences := ⟨[], false⟩

/-- the ranges from a place on, and whether the last one has no end; every range is longer than nothing, so the first
argument bounds them -/
def ranges (opening closing : Expr) : Nat → Cursor → List Hit × Bool
  | 0, _ => ([], false)
  | fuel + 1, c =>
    match opening.findNonempty? c with
    | .none => ([], false)
    | some first =>
      match closing.find? first.stop with
      | .none => ([⟨first.start, first.stop.toEnd⟩], true)
      | some last =>
        let (hits, unclosed) := ranges opening closing fuel last.stop
        (⟨first.start, last.stop⟩ :: hits, unclosed)

end Occurrences

namespace Rule

/-- the matches of a rule in a text -/
def occurrences (rule : Rule) (text : Text) : Occurrences :=
  match rule.shape with
  | .keyword pattern => ⟨pattern.hits text, false⟩
  | .range opening closing =>
    match opening.expr, closing.expr with
    | some opening, some closing =>
      let (hits, unclosed) := Occurrences.ranges opening closing (text.length + 1) (.start text)
      ⟨hits, unclosed && rule.spansLines⟩
    | _, _ => .none

/-- the match of a range that is open when the text begins: up to its first closing match, or the whole text -/
def resumed (rule : Rule) (text : Text) : Occurrences :=
  match rule.shape with
  | .keyword _ => .none
  | .range opening closing =>
    match opening.expr, closing.expr with
    | some _, some closing =>
      match closing.find? (.start text) with
      | some last => ⟨[⟨.start text, last.stop⟩], false⟩
      | .none => ⟨[⟨.start text, (Cursor.start text).toEnd⟩], rule.spansLines⟩
    | _, _ => .none

end Rule

end Linewise
