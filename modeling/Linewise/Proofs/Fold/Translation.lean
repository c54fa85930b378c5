/-
Rows and the rows there would be if nothing were hidden, there and back.

The table of hidden rows is filled from the top and holds running totals (`entries_ofPushes`). So it counts what is hidden
behind the rows above a row (`above_ofPushes`): a row that hides nothing moves the next one by one, and a collapsed row by
one more than it hides (`logical_succ_of_mem`, `logical_succ_of_notMem`). The way back walks over the table with running
differences; the invariant is that it never passes a row whose lines it has not left behind, so it stops at a row exactly if
the next one begins further down (`le_rowFrom_iff`).

Main statements: `logical_strictMono`, `gc_logical_rowOf`, `logical_rowOf_or_hides`.
-/
import Mathlib.Order.GaloisConnection.Basic
import Linewise.Proofs.Fold.Coordinates

namespace Linewise

namespace HiddenRows

variable {pushes : List (Nat × Nat)} {before row hidden line : Nat}

/-! ## The table -/

/-- the table once collapsed rows were added, each with how many lines it hides -/
def ofPushes {N : Type} [OfNat N 0] [Add N] (pushes : List (N × N)) : HiddenRows N :=
  pushes.foldl (fun h p => h.push p.1 p.2) {}

/-- each row comes below the ones before it -/
def Ascending {N : Type} [LT N] (pushes : List (N × N)) : Prop := pushes.Pairwise fun a b => a.1 < b.1

/-- rows with running totals, with `before` lines hidden above them -/
def totalsFrom (before : Nat) : List (Nat × Nat) → List (Nat × Nat)
  | [] => []
  | (row, hidden) :: pushes => (row, before + hidden) :: totalsFrom (before + hidden) pushes

/-- how many lines are hidden behind rows above one -/
def hiddenAbove (pushes : List (Nat × Nat)) (row : Nat) : Nat := ((pushes.filter (·.1 < row)).map (·.2)).sum

theorem total_push (h : HiddenRows) (row hidden : Nat) : (h.push row hidden).total = h.total + hidden := by
  simp [push, total]

theorem entries_foldl_push (h : HiddenRows) (pushes : List (Nat × Nat)) :
    (pushes.foldl (fun h p => h.push p.1 p.2) h).entries = h.entries ++ totalsFrom h.total pushes := by
  induction pushes generalizing h with
  | nil => exact (List.append_nil _).symm
  | cons p pushes ih =>
    rw [List.foldl_cons, ih, total_push, totalsFrom, push, List.append_assoc, List.singleton_append]

/-- **The table holds running totals.** -/
theorem entries_ofPushes (pushes : List (Nat × Nat)) : (ofPushes pushes).entries = totalsFrom 0 pushes :=
  entries_foldl_push {} pushes

theorem hiddenAbove_cons (row hidden : Nat) (pushes : List (Nat × Nat)) (bound : Nat) :
    hiddenAbove ((row, hidden) :: pushes) bound = (if row < bound then hidden else 0) + hiddenAbove pushes bound := by
  rw [hiddenAbove, List.filter_cons]
  split_ifs with hlt hlt' hlt'
  · rfl
  · exact absurd (of_decide_eq_true hlt) hlt'
  · exact absurd (decide_eq_true hlt') hlt
  · exact (Nat.zero_add _).symm

/-- nothing is hidden above the first row and those before it -/
theorem hiddenAbove_of_le (h : ∀ p ∈ pushes, row ≤ p.1) : hiddenAbove pushes row = 0 := by
  have hnone : pushes.filter (·.1 < row) = [] := by
    refine List.filter_eq_nil_iff.2 fun p hp => ?_
    simpa using h p hp
  rw [hiddenAbove, hnone]
  rfl

theorem Ascending.head_lt {p : Nat × Nat} (h : Ascending (p :: pushes)) : ∀ q ∈ pushes, p.1 < q.1 :=
  (List.pairwise_cons.1 h).1

theorem Ascending.tail {p : Nat × Nat} (h : Ascending (p :: pushes)) : Ascending pushes := (List.pairwise_cons.1 h).2

/-- the last total up to a row is what is hidden above it -/
theorem getLast?_takeWhile_totalsFrom (h : Ascending pushes) (before row : Nat) :
    ((((totalsFrom before pushes).takeWhile fun entry => entry.1 < row).getLast?).map (·.2)).getD before =
      before + hiddenAbove pushes row := by
  induction pushes generalizing before with
  | nil => rfl
  | cons p pushes ih =>
    obtain ⟨first, hidden⟩ := p
    rw [totalsFrom, hiddenAbove_cons]
    by_cases hlt : first < row
    · rw [List.takeWhile_cons_of_pos (by simpa using hlt), if_pos hlt, ← Nat.add_assoc, ← ih h.tail, List.getLast?_cons]
      cases ((totalsFrom (before + hidden) pushes).takeWhile fun entry => entry.1 < row).getLast? <;> rfl
    · have hbelow : ∀ q ∈ pushes, row ≤ q.1 := fun q hq => Nat.le_trans (Nat.le_of_not_lt hlt) (h.head_lt q hq).le
      rw [List.takeWhile_cons_of_neg (by simpa using hlt), if_neg hlt, hiddenAbove_of_le hbelow]
      rfl

/-- **The table counts what is hidden above a row.** -/
theorem above_ofPushes (h : Ascending pushes) (row : Nat) : (ofPushes pushes).above row = hiddenAbove pushes row := by
  rw [above, entries_ofPushes, getLast?_takeWhile_totalsFrom h, Nat.zero_add]

theorem logical_ofPushes (h : Ascending pushes) (row : Nat) :
    (ofPushes pushes).logical row = row + hiddenAbove pushes row := by
  rw [logical, above_ofPushes h]

/-! ## From one row to the next -/

theorem hiddenAbove_succ_of_notMem (h : ∀ hidden, (row, hidden) ∉ pushes) :
    hiddenAbove pushes (row + 1) = hiddenAbove pushes row := by
  have hsame : pushes.filter (·.1 < row + 1) = pushes.filter (·.1 < row) := by
    refine List.filter_congr fun p hp => ?_
    have hne : p.1 ≠ row := fun hrow => h p.2 (hrow ▸ hp)
    exact decide_eq_decide.2 ⟨fun _ => by omega, fun _ => by omega⟩
  rw [hiddenAbove, hsame, hiddenAbove]

theorem hiddenAbove_succ_of_mem (h : Ascending pushes) (hp : (row, hidden) ∈ pushes) :
    hiddenAbove pushes (row + 1) = hiddenAbove pushes row + hidden := by
  induction pushes with
  | nil => cases hp
  | cons p pushes ih =>
    obtain ⟨first, behind⟩ := p
    rw [hiddenAbove_cons, hiddenAbove_cons]
    rcases List.mem_cons.1 hp with hsame | hp
    · cases hsame
      have hnone : ∀ behind, (row, behind) ∉ pushes := fun _ hq => Nat.lt_irrefl row (h.head_lt _ hq)
      rw [if_pos (Nat.lt_succ_self row), if_neg (Nat.lt_irrefl row), hiddenAbove_succ_of_notMem hnone, Nat.zero_add,
        Nat.add_comm]
    · have hlt : first < row := h.head_lt (row, hidden) hp
      rw [if_pos (Nat.lt_succ_of_lt hlt), if_pos hlt, ih h.tail hp, Nat.add_assoc]

theorem logical_succ_of_notMem (h : Ascending pushes) (hrow : ∀ hidden, (row, hidden) ∉ pushes) :
    (ofPushes pushes).logical (row + 1) = (ofPushes pushes).logical row + 1 := by
  rw [logical_ofPushes h, logical_ofPushes h, hiddenAbove_succ_of_notMem hrow]
  omega

theorem logical_succ_of_mem (h : Ascending pushes) (hp : (row, hidden) ∈ pushes) :
    (ofPushes pushes).logical (row + 1) = (ofPushes pushes).logical row + hidden + 1 := by
  rw [logical_ofPushes h, logical_ofPushes h, hiddenAbove_succ_of_mem h hp]
  omega

/-- **Rows stay in order.** -/
theorem logical_strictMono (h : Ascending pushes) : StrictMono (ofPushes pushes).logical := by
  refine strictMono_nat_of_lt_succ fun row => ?_
  by_cases hrow : ∃ hidden, (row, hidden) ∈ pushes
  · obtain ⟨hidden, hp⟩ := hrow
    rw [logical_succ_of_mem h hp]
    omega
  · rw [logical_succ_of_notMem h (not_exists.1 hrow)]
    omega

/-! ## The way back -/

/-- the search stops at or below a row exactly if that row begins at or above the line -/
theorem le_rowFrom_iff (h : Ascending pushes) (hbefore : before ≤ line) :
    row ≤ rowFrom before (totalsFrom before pushes) line ↔ row + (before + hiddenAbove pushes row) ≤ line := by
  induction pushes generalizing before with
  | nil =>
    rw [totalsFrom, rowFrom, hiddenAbove_of_le (by simp)]
    omega
  | cons p pushes ih =>
    obtain ⟨first, hidden⟩ := p
    rw [totalsFrom, rowFrom, hiddenAbove_cons]
    have hbelow : row ≤ first → hiddenAbove pushes row = 0 := fun hle =>
      hiddenAbove_of_le fun q hq => Nat.le_trans hle (h.head_lt q hq).le
    split_ifs with hshown hrow hhidden hrow hrow
    -- a row below the first is moved by all that the first hides, and one above it by nothing of it
    · omega
    · have hnone := hbelow (Nat.le_of_not_lt hrow)
      omega
    · omega
    · have hnone := hbelow (Nat.le_of_not_lt hrow)
      omega
    · rw [ih h.tail (by omega)]
      omega
    · have hnone := hbelow (Nat.le_of_not_lt hrow)
      rw [ih h.tail (by omega), hnone]
      omega

/-- **Rows and lines are a Galois connection.** -/
theorem gc_logical_rowOf (h : Ascending pushes) : GaloisConnection (ofPushes pushes).logical (ofPushes pushes).rowOf := by
  intro row line
  rw [logical_ofPushes h, rowOf, entries_ofPushes, le_rowFrom_iff h (Nat.zero_le line), Nat.zero_add]

/-- the lines that a collapsed row hides follow it -/
def Hides {N : Type} [OfNat N 0] [Add N] [LT N] [DecidableLT N] [LE N] (pushes : List (N × N)) (row line : N) : Prop :=
  ∃ hidden, (row, hidden) ∈ pushes ∧ (ofPushes pushes).logical row < line ∧
    line ≤ (ofPushes pushes).logical row + hidden

theorem rowOf_eq_iff (h : Ascending pushes) : (ofPushes pushes).rowOf line = row ↔
    (ofPushes pushes).logical row ≤ line ∧ line < (ofPushes pushes).logical (row + 1) := by
  rw [gc_logical_rowOf h row line, ← Nat.not_le, gc_logical_rowOf h (row + 1) line]
  omega

theorem rowOf_of_hides (h : Ascending pushes) (hhides : Hides pushes row line) : (ofPushes pushes).rowOf line = row := by
  obtain ⟨hidden, hp, hbelow, hwithin⟩ := hhides
  rw [rowOf_eq_iff h, logical_succ_of_mem h hp]
  omega

/-- the way there and back leads to the row itself -/
theorem rowOf_logical (h : Ascending pushes) (row : Nat) : (ofPushes pushes).rowOf ((ofPushes pushes).logical row) = row := by
  rw [rowOf_eq_iff h]
  exact ⟨Nat.le_refl _, logical_strictMono h (Nat.lt_succ_self row)⟩

/-- **A line is that of a row, or hidden by the row that the search finds.** -/
theorem logical_rowOf_or_hides (h : Ascending pushes) (line : Nat) :
    (ofPushes pushes).logical ((ofPushes pushes).rowOf line) = line ∨ Hides pushes ((ofPushes pushes).rowOf line) line := by
  obtain ⟨hle, hlt⟩ := (rowOf_eq_iff h).1 (rfl : (ofPushes pushes).rowOf line = _)
  by_cases hrow : ∃ hidden, ((ofPushes pushes).rowOf line, hidden) ∈ pushes
  · obtain ⟨hidden, hp⟩ := hrow
    rw [logical_succ_of_mem h hp] at hlt
    rcases Nat.eq_or_lt_of_le hle with heq | hbelow
    · exact Or.inl heq
    · exact Or.inr ⟨hidden, hp, hbelow, by omega⟩
  · rw [logical_succ_of_notMem h (not_exists.1 hrow)] at hlt
    omega

end HiddenRows

end Linewise
