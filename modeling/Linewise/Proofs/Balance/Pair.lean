/-
Counters of stretches of text form a monoid.

Stretches combine with `+`, in order; a stretch without tokens changes nothing. So the tallies of many lines do not depend
on how the lines are grouped, and are sums of lists.
-/
import Linewise.Balance.Pair
import Mathlib.Algebra.BigOperators.Group.List.Basic

namespace Linewise

instance : Zero Pair := ⟨{}⟩

instance : Zero Tally := ⟨{}⟩

instance : Zero Tallies := ⟨{}⟩

namespace Pair

theorem add_def (p q : Pair) :
    p + q = ⟨p.opened - min p.opened q.closed + q.opened, p.closed + q.closed - min p.opened q.closed⟩ := rfl

theorem zero_def : (0 : Pair) = {} := rfl

instance : AddMonoid Pair where
  add_assoc p q r := by
    -- what the third stretch closes was opened by the second, or else by the first
    simp only [add_def, mk.injEq]
    constructor <;> omega
  zero_add p := by simp [add_def, zero_def]
  add_zero p := by simp [add_def, zero_def]
  nsmul := nsmulRec

end Pair

namespace Tally

theorem add_def (s t : Tally) : s + t = ⟨s.plain + t.plain, s.commented + t.commented⟩ := rfl

theorem zero_def : (0 : Tally) = ⟨0, 0⟩ := rfl

instance : AddMonoid Tally where
  add_assoc s t u := by simp only [add_def, add_assoc]
  zero_add t := by simp only [add_def, zero_def, zero_add]
  add_zero t := by simp only [add_def, zero_def, add_zero]
  nsmul := nsmulRec

@[simp] theorem pair_zero (commented : Bool) : (0 : Tally).pair commented = 0 := by cases commented <;> rfl

theorem pair_add (s t : Tally) (commented : Bool) : (s + t).pair commented = s.pair commented + t.pair commented := by
  cases commented <;> rfl

/-- contexts are counted on their own -/
theorem pair_sum (tallies : List Tally) (commented : Bool) :
    tallies.sum.pair commented = (tallies.map fun t => t.pair commented).sum := by
  induction tallies with
  | nil => simp
  | cons t tallies ih => rw [List.sum_cons, pair_add, ih, List.map_cons, List.sum_cons]

end Tally

namespace Tallies

@[simp] theorem addItems_nil (ts : List Tally) : addItems ts [] = ts := by cases ts <;> rfl

theorem addItems_assoc (ss ts us : List Tally) : addItems (addItems ss ts) us = addItems ss (addItems ts us) := by
  induction ss generalizing ts us with
  | nil => rfl
  | cons s ss ih =>
    cases ts with
    | nil => rfl
    | cons t ts =>
      cases us with
      | nil => rfl
      | cons u us => simp only [addItems, ih, add_assoc]

instance : AddMonoid Tallies where
  add_assoc ss ts us := congrArg mk (addItems_assoc ss.items ts.items us.items)
  zero_add ts := rfl
  add_zero ts := congrArg mk (addItems_nil ts.items)
  nsmul := nsmulRec

theorem getD_addItems (ss ts : List Tally) (kind : Nat) :
    (addItems ss ts)[kind]?.getD {} = ss[kind]?.getD {} + ts[kind]?.getD {} := by
  induction ss generalizing ts kind with
  | nil => exact (zero_add (ts[kind]?.getD {})).symm
  | cons s ss ih =>
    cases ts with
    | nil => exact (add_zero (((s :: ss)[kind]?).getD {})).symm
    | cons t ts =>
      cases kind with
      | zero => rfl
      | succ kind => simpa [addItems] using ih ts kind

/-- kinds are counted on their own -/
@[simp] theorem get_add (ss ts : Tallies) (kind : Nat) : (ss + ts).get kind = ss.get kind + ts.get kind :=
  getD_addItems ss.items ts.items kind

theorem get_sum (items : List Tallies) (kind : Nat) : items.sum.get kind = (items.map fun ts => ts.get kind).sum := by
  induction items with
  | nil => rfl
  | cons ts items ih => rw [List.sum_cons, get_add, ih, List.map_cons, List.sum_cons]

end Tallies

end Linewise
