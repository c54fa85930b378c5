/-
Counters of opening and closing tokens.

A pair says how many blocks a stretch of text opens without closing them, and how many it closes that were opened
before it. Stretches combine with `+`, earlier first: closings of the later one cancel openings of the earlier one.

Counters are natural numbers unless other numbers are named. A program counts in words, which go on with zero after the
greatest one; the same definitions say what it does.
-/
namespace Linewise

variable {N : Type} [OfNat N 0]

/-- blocks left open, and blocks closed that were opened before -/
structure Pair (N : Type := Nat) [OfNat N 0] where
  opened : N := 0
  closed : N := 0
  deriving DecidableEq, Repr, Inhabited

namespace Pair

/-- count an opening token -/
def addOpening [OfNat N 1] [Add N] (p : Pair N) : Pair N := { p with opened := p.opened + 1 }

/-- count a closing token -/
def addClosing [OfNat N 1] [Add N] [Sub N] [LT N] [DecidableLT N] (p : Pair N) : Pair N :=
  if 0 < p.opened then { p with opened := p.opened - 1 } else { p with closed := p.closed + 1 }

/-- whether nothing is left open or closed -/
def isZero [BEq N] (p : Pair N) : Bool := p.opened == 0 && p.closed == 0

/-- the pair of two stretches, the earlier first -/
def add [Add N] [Sub N] [Min N] (p q : Pair N) : Pair N :=
  let matched := min p.opened q.closed
  { opened := p.opened - matched + q.opened, closed := p.closed + q.closed - matched }

instance [Add N] [Sub N] [Min N] : Add (Pair N) := ⟨add⟩

end Pair

/-- the pairs of one kind of delimiter, in plain text and in comments -/
structure Tally (N : Type := Nat) [OfNat N 0] where
  plain : Pair N := {}
  commented : Pair N := {}
  deriving DecidableEq, Repr, Inhabited

namespace Tally

/-- the pair of one context -/
def pair (t : Tally N) (commented : Bool) : Pair N := if commented then t.commented else t.plain

/-- change the pair of one context -/
def modify (t : Tally N) (commented : Bool) (f : Pair N → Pair N) : Tally N :=
  if commented then { t with commented := f t.commented } else { t with plain := f t.plain }

/-- whether both pairs are zero -/
def isZero [BEq N] (t : Tally N) : Bool := t.plain.isZero && t.commented.isZero

/-- the tally of two stretches, the earlier first -/
def add [Add N] [Sub N] [Min N] (s t : Tally N) : Tally N :=
  { plain := s.plain + t.plain, commented := s.commented + t.commented }

instance [Add N] [Sub N] [Min N] : Add (Tally N) := ⟨add⟩

end Tally

/-- the tallies of a line, one for each kind of delimiter -/
structure Tallies (N : Type := Nat) [OfNat N 0] where
  items : List (Tally N) := []
  deriving DecidableEq, Repr, Inhabited

namespace Tallies

/-- so many tallies of nothing -/
def zeroed (kinds : Nat) : Tallies N := ⟨List.replicate kinds {}⟩

/-- the tally of a kind; kinds beyond the list have counted nothing -/
def get (ts : Tallies N) (kind : Nat) : Tally N := ts.items[kind]?.getD {}

/-- how many kinds are listed -/
def size (ts : Tallies N) : Nat := ts.items.length

/-- whether no kind is listed -/
def isEmpty (ts : Tallies N) : Bool := ts.items.isEmpty

/-- whether nothing was counted -/
def isZero [BEq N] (ts : Tallies N) : Bool := ts.items.all (·.isZero)

/-- kind by kind; where one list is longer, its tallies stay -/
def addItems [Add N] [Sub N] [Min N] : List (Tally N) → List (Tally N) → List (Tally N)
  | [], ts => ts
  | ss, [] => ss
  | s :: ss, t :: ts => (s + t) :: addItems ss ts

/-- the tallies of two stretches, the earlier first -/
def add [Add N] [Sub N] [Min N] (ss ts : Tallies N) : Tallies N := ⟨addItems ss.items ts.items⟩

instance [Add N] [Sub N] [Min N] : Add (Tallies N) := ⟨add⟩

end Tallies

end Linewise
