/-
The fold layout as a sweep over marks.

Folding reads little of a line: what it opens and closes in its own context, which context that is, and whether it is
collapsed. A mark is that, with a label to tell the line by. A sweep keeps the open blocks and, as a multiset, the
stretches closed so far, both by label. It is the layout without offsets, flags and order, in a form with laws: a step
is a closed form (`Sweep.step`), relabelling commutes with running (`Sweep.map_run`), and what was closed before does
not matter to what follows (`Sweep.run_closed`).

Main statements:
- `FoldState.sweep_foldl`: visiting lines is a sweep over their marks;
- `Layout.build_perm`: the segments of a layout are those closed on the way and those that run to the last line;
- `Layout.ends_build`: as stretches between places, they are what the sweep leaves.
-/
import Mathlib.Algebra.Order.Group.Multiset
import Linewise.Fold.Layout

namespace Linewise

/-- what folding reads of a line, and a label to tell the line by -/
structure Mark (α : Type) where
  label : α
  pair : Pair
  ignored : Bool
  collapsed : Bool

namespace Mark

variable {α β : Type}

/-- the mark under another label -/
def map (f : α → β) (m : Mark α) : Mark β := { m with label := f m.label }

/-- the stretch of a collapsed line alone -/
def alone (m : Mark α) : Multiset (α × α) := if m.collapsed then {(m.label, m.label)} else 0

theorem alone_map (f : α → β) (m : Mark α) : (m.map f).alone = m.alone.map (Prod.map f f) := by
  unfold alone map
  split_ifs <;> simp

end Mark

/-- how many open blocks, from the innermost on, are of the context -/
def reach {α : Type} (ignored : Bool) (stack : List (α × Bool)) : Nat :=
  (stack.takeWhile fun block => block.2 == ignored).length

theorem reach_cons {α : Type} (ignored : Bool) (block : α × Bool) (stack : List (α × Bool)) :
    reach ignored (block :: stack) = if block.2 = ignored then reach ignored stack + 1 else 0 := by
  by_cases hb : block.2 = ignored <;> simp [reach, hb]

/-- what lies within the reach is of the context -/
theorem getElem?_of_lt_reach {α : Type} {ignored : Bool} {stack : List (α × Bool)} {i : Nat}
    (hi : i < reach ignored stack) : ∃ block, stack[i]? = some block ∧ block.2 = ignored := by
  induction stack generalizing i with
  | nil => cases hi
  | cons block stack ih =>
    rw [reach_cons] at hi
    split_ifs at hi with hb
    · cases i with
      | zero => exact ⟨block, rfl, hb⟩
      | succ i => exact ih (Nat.lt_of_succ_lt_succ hi)
    · cases hi

/-- what comes next is of the other one -/
theorem ne_of_getElem?_reach {α : Type} {ignored : Bool} {stack : List (α × Bool)} {block : α × Bool}
    (h : stack[reach ignored stack]? = some block) : block.2 ≠ ignored := by
  induction stack with
  | nil => cases h
  | cons first stack ih =>
    rw [reach_cons] at h
    split_ifs at h with hb
    · exact ih h
    · cases h
      exact hb

/-- the open blocks, innermost first, each with the label and the context of its line, and the stretches closed -/
structure Sweep (α : Type) where
  stack : List (α × Bool) := []
  closed : Multiset (α × α) := 0

namespace Sweep

variable {α β : Type}

/-- how many blocks a line closes -/
def closes (stack : List (α × Bool)) (m : Mark α) : Nat := min m.pair.closed (reach m.ignored stack)

/-- pass a line: it closes blocks of its own context, then opens its own; a collapsed one is a stretch of its own -/
def step (s : Sweep α) (m : Mark α) : Sweep α where
  stack := List.replicate m.pair.opened (m.label, m.ignored) ++ s.stack.drop (closes s.stack m)
  closed := s.closed + ((s.stack.take (closes s.stack m)).map fun block => (block.1, m.label)) + m.alone

/-- pass lines one after the other -/
def run (s : Sweep α) (marks : List (Mark α)) : Sweep α := marks.foldl step s

/-- the stretches once what is open ends at the line `last` -/
def stretches (s : Sweep α) (last : α) : Multiset (α × α) := s.closed + s.stack.map fun block => (block.1, last)

/-- the sweep under other labels -/
def map (f : α → β) (s : Sweep α) : Sweep β :=
  ⟨s.stack.map (Prod.map f id), s.closed.map (Prod.map f f)⟩

@[simp] theorem run_nil (s : Sweep α) : s.run [] = s := rfl

@[simp] theorem run_cons (s : Sweep α) (m : Mark α) (marks : List (Mark α)) :
    s.run (m :: marks) = (s.step m).run marks := rfl

theorem run_append (s : Sweep α) (first second : List (Mark α)) :
    s.run (first ++ second) = (s.run first).run second := List.foldl_append

/-! ## Relabelling -/

theorem reach_map (f : α → β) (ignored : Bool) (stack : List (α × Bool)) :
    reach ignored (stack.map (Prod.map f id)) = reach ignored stack := by
  rw [reach, List.takeWhile_map, List.length_map]
  rfl

theorem closes_map (f : α → β) (stack : List (α × Bool)) (m : Mark α) :
    closes (stack.map (Prod.map f id)) (m.map f) = closes stack m := by
  simp only [closes, Mark.map, reach_map]

theorem map_step (f : α → β) (s : Sweep α) (m : Mark α) : (s.step m).map f = (s.map f).step (m.map f) := by
  simp only [map, step, closes_map, mk.injEq]
  refine ⟨?_, ?_⟩
  · simp [Mark.map]
  · rw [Multiset.map_add, Multiset.map_add, Mark.alone_map]
    simp [Mark.map, Function.comp_def]

/-- relabelling before a run or after it is the same -/
theorem map_run (f : α → β) (s : Sweep α) (marks : List (Mark α)) :
    (s.run marks).map f = (s.map f).run (marks.map (Mark.map f)) := by
  induction marks generalizing s with
  | nil => rfl
  | cons m marks ih => rw [run_cons, ih, map_step, List.map_cons, run_cons]

theorem stretches_map (f : α → β) (s : Sweep α) (last : α) :
    (s.stretches last).map (Prod.map f f) = (s.map f).stretches (f last) := by
  simp [stretches, map, Function.comp_def]

/-! ## What was closed before -/

/-- a run adds to what was closed before, and depends on the open blocks alone -/
theorem run_closed (stack : List (α × Bool)) (closed : Multiset (α × α)) (marks : List (Mark α)) :
    (run ⟨stack, closed⟩ marks).stack = (run ⟨stack, 0⟩ marks).stack ∧
      (run ⟨stack, closed⟩ marks).closed = closed + (run ⟨stack, 0⟩ marks).closed := by
  induction marks generalizing stack closed with
  | nil => simp
  | cons m marks ih =>
    simp only [run_cons, step]
    rw [(ih _ _).1, (ih _ _).2]
    refine ⟨(ih _ _).1.symm, ?_⟩
    rw [(ih _ (0 + _ + _)).2]
    simp only [zero_add, add_assoc]

theorem stretches_run (s : Sweep α) (marks : List (Mark α)) (last : α) :
    (s.run marks).stretches last = s.closed + (run ⟨s.stack, 0⟩ marks).stretches last := by
  obtain ⟨hstack, hclosed⟩ := run_closed s.stack s.closed marks
  rw [stretches, stretches, hstack, hclosed, add_assoc]

end Sweep

/-! ## Visiting lines -/

/-- a line of the document and its row -/
def Marker.place (m : Marker) : LineId × Nat := (m.line, m.row)

/-- the places where a segment begins and ends -/
def Segment.ends (s : Segment) : (LineId × Nat) × (LineId × Nat) := (s.start.place, s.stop.place)

/-- an open block as a sweep keeps it -/
def OpenBlock.entry (b : OpenBlock) : (LineId × Nat) × Bool := (b.marker.place, b.flags.contains .ignored)

/-- the mark of a line that stands at a row -/
def FoldLine.mark (row : Nat) (line : FoldLine) : Mark (LineId × Nat) :=
  ⟨(line.id, row), line.tally.pair line.ignored, line.ignored, line.collapsed⟩

/-- the marks of lines from a row on -/
def marksFrom : Nat → List FoldLine → List (Mark (LineId × Nat))
  | _, [] => []
  | row, line :: lines => line.mark row :: marksFrom (row + 1) lines

theorem marksFrom_append (row : Nat) (first second : List FoldLine) :
    marksFrom row (first ++ second) = marksFrom row first ++ marksFrom (row + first.length) second := by
  induction first generalizing row with
  | nil => rfl
  | cons line first ih =>
    simp only [List.cons_append, marksFrom, ih, List.length_cons]
    rw [Nat.add_right_comm, Nat.add_assoc]

theorem mem_marksFrom {row : Nat} {lines : List FoldLine} {m : Mark (LineId × Nat)} (hm : m ∈ marksFrom row lines) :
    ∃ i, ∃ line : FoldLine, lines[i]? = some line ∧ m = line.mark (row + i) := by
  induction lines generalizing row with
  | nil => cases hm
  | cons line lines ih =>
    rcases List.mem_cons.1 hm with rfl | hm
    · exact ⟨0, line, rfl, rfl⟩
    · obtain ⟨i, other, hget, rfl⟩ := ih hm
      exact ⟨i + 1, other, hget, by rw [Nat.add_assoc, Nat.add_comm 1]⟩

namespace FoldState

/-- the flags of the segments that a line opens -/
def flagsOf (line : FoldLine) : SegmentFlags :=
  (SegmentFlags.when line.ignored .ignored).union (.when line.collapsed .collapsed)

theorem flagsOf_ignored (line : FoldLine) : (flagsOf line).contains .ignored = line.ignored := by
  simp only [flagsOf]
  cases line.ignored <;> cases line.collapsed <;> rfl

/-- a state of folding as a sweep -/
def sweep (s : FoldState) : Sweep (LineId × Nat) := ⟨s.stack.map OpenBlock.entry, s.segments.map Segment.ends⟩

/-- closing blocks in one go: as many as there are to close, and no further than the context reaches -/
theorem close_eq (stop : Marker) (ignored : Bool) (extra : SegmentFlags) (count : Nat) (stack : List OpenBlock)
    (segments : List Segment) :
    close stop ignored extra count stack segments =
      (stack.drop (min count (reach ignored (stack.map OpenBlock.entry))),
        ((stack.take (min count (reach ignored (stack.map OpenBlock.entry)))).map fun block =>
          ⟨block.marker, stop, block.flags.union extra⟩).reverse ++ segments) := by
  induction count generalizing stack segments with
  | zero => simp [close]
  | succ count ih =>
    cases stack with
    | nil => simp [close, reach]
    | cons block stack =>
      have hcontext : block.entry.2 = ignored ↔ (block.flags.contains .ignored == ignored) = true := by
        rw [beq_iff_eq]
        rfl
      rw [close, List.map_cons, reach_cons]
      by_cases hb : block.entry.2 = ignored
      · rw [if_pos (hcontext.1 hb), if_pos hb, ih, Nat.succ_min_succ]
        simp
      · rw [if_neg fun h => hb (hcontext.2 h), if_neg hb, Nat.min_zero]
        rfl

/-- where a line begins -/
def startOf (s : FoldState) (line : FoldLine) : Marker :=
  { line := line.id, row := s.row, logical := s.hidden.logical s.row, offset := line.offset, resolved := true }

/-- where a line ends -/
def stopOf (s : FoldState) (line : FoldLine) : Marker := { s.startOf line with offset := line.offset + line.length }

/-- the segments that a line closes, innermost first -/
def closedBy (s : FoldState) (line : FoldLine) : List Segment :=
  (s.stack.take (Sweep.closes s.sweep.stack (line.mark s.row))).map fun block =>
    ⟨block.marker, s.stopOf line,
      block.flags.union (.when (0 < (line.tally.pair line.ignored).opened) .beginOnly)⟩

/-- the segment of a collapsed line alone -/
def selfOf (s : FoldState) (line : FoldLine) : List Segment :=
  if line.collapsed then [⟨s.startOf line, s.stopOf line, flagsOf line⟩] else []

theorem step_stack (s : FoldState) (line : FoldLine) :
    (s.step line).stack = List.replicate (line.tally.pair line.ignored).opened ⟨s.startOf line, flagsOf line⟩ ++
      s.stack.drop (Sweep.closes s.sweep.stack (line.mark s.row)) := by
  simp only [step, close_eq]
  rfl

theorem step_segments (s : FoldState) (line : FoldLine) :
    (s.step line).segments = s.selfOf line ++ (s.closedBy line).reverse ++ s.segments := by
  simp only [step, close_eq, selfOf]
  split_ifs <;> rfl

theorem ends_selfOf (s : FoldState) (line : FoldLine) :
    ((s.selfOf line).map Segment.ends : Multiset _) = (line.mark s.row).alone := by
  by_cases hc : line.collapsed = true
  · rw [selfOf, if_pos hc, Mark.alone, if_pos (show (line.mark s.row).collapsed = true from hc)]
    rfl
  · rw [selfOf, if_neg hc, Mark.alone, if_neg (show ¬ (line.mark s.row).collapsed = true from hc)]
    rfl

theorem ends_closedBy (s : FoldState) (line : FoldLine) :
    (s.closedBy line).map Segment.ends =
      (s.sweep.stack.take (Sweep.closes s.sweep.stack (line.mark s.row))).map fun block => (block.1, (line.id, s.row)) := by
  simp only [closedBy, sweep, List.map_map, ← List.map_take]
  rfl

/-- visiting a line is a step of the sweep -/
theorem sweep_step (s : FoldState) (line : FoldLine) : (s.step line).sweep = s.sweep.step (line.mark s.row) := by
  simp only [Sweep.step, sweep, Sweep.mk.injEq]
  refine ⟨?_, ?_⟩
  · rw [step_stack, List.map_append, List.map_replicate, List.map_drop]
    congr 2
    exact congrArg (Prod.mk (line.id, s.row)) (flagsOf_ignored line)
  · rw [step_segments, List.map_append, List.map_append, List.map_reverse, ends_closedBy, ← Multiset.coe_add,
      ← Multiset.coe_add, ends_selfOf, Multiset.coe_reverse, add_comm, add_comm (Mark.alone _), ← add_assoc]
    rfl

@[simp] theorem step_row (s : FoldState) (line : FoldLine) : (s.step line).row = s.row + 1 := rfl

theorem foldl_row (s : FoldState) (lines : List FoldLine) : (lines.foldl step s).row = s.row + lines.length := by
  induction lines generalizing s with
  | nil => rfl
  | cons line lines ih => rw [List.foldl_cons, ih, step_row, List.length_cons, Nat.add_assoc, Nat.add_comm 1]

/-- **Visiting lines is a sweep over their marks.** -/
theorem sweep_foldl (s : FoldState) (lines : List FoldLine) :
    (lines.foldl step s).sweep = s.sweep.run (marksFrom s.row lines) := by
  induction lines generalizing s with
  | nil => rfl
  | cons line lines ih => rw [List.foldl_cons, ih, sweep_step, marksFrom, Sweep.run_cons, step_row]

end FoldState

/-! ## Layouts -/

theorem Segment.place_perm (s : Segment) (segments : List Segment) : (s.place segments).Perm (s :: segments) := by
  induction segments with
  | nil => exact List.Perm.refl _
  | cons t rest ih =>
    unfold place
    split_ifs
    · exact List.Perm.refl _
    · exact (ih.cons t).trans (List.Perm.swap s t rest)

theorem Segment.sort_perm (segments : List Segment) : (sort segments).Perm segments := by
  induction segments with
  | nil => exact List.Perm.refl _
  | cons s rest ih => exact (place_perm s (sort rest)).trans (ih.cons s)

namespace Layout

/-- the state of folding below the last line -/
def state (lines : List FoldLine) : FoldState := lines.foldl FoldState.step {}

/-- the segments that a line closed, and those of collapsed lines alone -/
def ended (lines : List FoldLine) : List Segment := (state lines).segments

/-- the segments that are open at the last line and end there -/
def unended (lines : List FoldLine) : List Segment :=
  match (state lines).lastEnd with
  | none => []
  | some stop => (state lines).stack.map fun block => ⟨block.marker, stop, block.flags⟩

/-- **The segments of a layout** are those that ended on the way and those that run to the last line. -/
theorem build_perm (lines : List FoldLine) : (build lines).segments.Perm (ended lines ++ unended lines) :=
  (Segment.sort_perm _).trans ((List.reverse_perm _).append_right _)

/-- the sweep over all lines -/
def sweep (lines : List FoldLine) : Sweep (LineId × Nat) := Sweep.run {} (marksFrom 0 lines)

theorem sweep_state (lines : List FoldLine) : (state lines).sweep = sweep lines := FoldState.sweep_foldl {} lines

theorem ends_ended (lines : List FoldLine) : ((ended lines).map Segment.ends : Multiset _) = (sweep lines).closed :=
  congrArg Sweep.closed (sweep_state lines)

theorem ends_unended (front : List FoldLine) (last : FoldLine) :
    (unended (front ++ [last])).map Segment.ends =
      (sweep (front ++ [last])).stack.map fun block => (block.1, (last.id, front.length)) := by
  have hend : (state (front ++ [last])).lastEnd = some ((state front).stopOf last) := by
    rw [state, List.foldl_append]
    rfl
  have hrow : (state front).row = front.length := by rw [state, FoldState.foldl_row, Nat.zero_add]
  rw [← sweep_state]
  simp only [unended, hend, FoldState.sweep, List.map_map]
  apply List.map_congr_left
  intro block _
  simp only [Function.comp, Segment.ends, OpenBlock.entry, FoldState.stopOf, FoldState.startOf, Marker.place, hrow]

/-- **The stretches of a layout** are what the sweep leaves once what is open ends at the last line. -/
theorem ends_build (front : List FoldLine) (last : FoldLine) :
    ((build (front ++ [last])).segments.map Segment.ends : Multiset _) =
      (sweep (front ++ [last])).stretches (last.id, front.length) := by
  rw [Multiset.coe_eq_coe.2 ((build_perm _).map _), List.map_append, ← Multiset.coe_add, ends_ended, ends_unended]
  rfl

end Layout

end Linewise
