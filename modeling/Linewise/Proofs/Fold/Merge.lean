/-
Lines of one context may be folded as one line.

A collapsed line is read with the tallies of all the lines it hides, put together from left to right. What they open and
close among themselves cancels in the sum, and what is left is what the sweep would have done line by line: the blocks that
the lines close among themselves are gone, and every other block is where it was, but for ends on these lines, which are
now on the one line.

The segments of collapsed lines alone say nothing about blocks. They are set apart (`alone`); a sweep over marks that are
not collapsed (`Mark.bare`) meets the others only.

Main statements:
- `blocks_eq`: apart from collapsed lines alone, a segment was closed by a line below its first one, or is open at the end;
- `blocks_merged`: what becomes of the blocks when consecutive lines are replaced by one that stands for them.
-/
import Linewise.Proofs.Fold.Collapse

namespace Linewise

namespace Mark

variable {α β : Type}

/-- the mark of the line as if it were not collapsed -/
def bare (m : Mark α) : Mark α := { m with collapsed := false }

@[simp] theorem alone_bare (m : Mark α) : m.bare.alone = 0 := rfl

theorem map_label_bare (marks : List (Mark α)) : (marks.map bare).map (·.label) = marks.map (·.label) := by
  rw [List.map_map]
  rfl

theorem map_map_bare (f : α → β) (marks : List (Mark α)) :
    (marks.map bare).map (map f) = (marks.map (map f)).map bare := by
  rw [List.map_map, List.map_map]
  rfl

end Mark

namespace Sweep

variable {α β : Type}

/-- a stretch of lines under other labels -/
theorem Over.map {base opened : List (α × Bool)} {marks : List (Mark α)} {count : Nat} {inner outer : Multiset (α × α)}
    {s : Sweep α} (h : Over base marks opened count inner outer s) (f : α → β) :
    Over (base.map (Prod.map f id)) (marks.map (Mark.map f)) (opened.map (Prod.map f id)) count
      (inner.map (Prod.map f f)) (outer.map (Prod.map f f)) (s.map f) := by
  have hlabels : (marks.map (Mark.map f)).map (·.label) = (marks.map (·.label)).map f := by
    rw [List.map_map, List.map_map]
    rfl
  refine ⟨?_, ?_, ?_, ?_, ?_, ?_, ?_⟩
  · rw [Sweep.map, h.stack, List.map_append, List.map_drop]
  · rw [List.length_map]
    exact h.count_le
  · intro block hb
    obtain ⟨old, hold, rfl⟩ := List.mem_map.1 hb
    rw [hlabels]
    exact List.mem_map_of_mem (h.opened_mem old hold)
  · rw [Sweep.map, h.closed, Multiset.map_add]
  · intro p hp
    obtain ⟨old, hold, rfl⟩ := Multiset.mem_map.1 hp
    rw [hlabels]
    exact ⟨List.mem_map_of_mem (h.inner_mem old hold).1, List.mem_map_of_mem (h.inner_mem old hold).2⟩
  · intro p hp
    obtain ⟨old, hold, rfl⟩ := Multiset.mem_map.1 hp
    rw [hlabels]
    exact List.mem_map_of_mem (h.outer_mem old hold)
  · have hstarts := congrArg (Multiset.map f) h.outer_starts
    rw [Multiset.map_map, Multiset.map_coe, List.map_map] at hstarts
    rw [Multiset.map_map, ← List.map_take, List.map_map]
    exact hstarts

/-- **Lines under one label of one context are one line to the blocks open above**: as many of these are closed, and as many
blocks are left open. The label must tell the lines from those above. -/
theorem run_eq_step {base : List (α × Bool)} {label : α} {ignored : Bool} {marks : List (Mark α)} (m : Mark α)
    (hbase : ∀ block ∈ base, block.1 ≠ label) (hlabel : ∀ m ∈ marks, m.label = label)
    (hcontext : ∀ m ∈ marks, m.ignored = ignored) (hm : m.label = label) (hignored : m.ignored = ignored)
    (hpair : m.pair = (marks.map (·.pair)).sum) {opened : List (α × Bool)} {count : Nat} {inner outer : Multiset (α × α)}
    (h : Over base marks opened count inner outer (run ⟨base, 0⟩ marks)) :
    (step ⟨base, 0⟩ m.bare).stack = opened ++ base.drop count ∧ (step ⟨base, 0⟩ m.bare).closed = outer := by
  classical
  have hstack : opened ++ base.drop count = afterLine base label ignored m.pair := by
    have hrun := run_uniform base hlabel (fun m hm => .inl (hcontext m hm)) 0 0
    have hnone : afterLine base label ignored 0 = base := by simp [afterLine, Pair.zero_def]
    rw [hnone, zero_add, ← hpair] at hrun
    rw [← h.stack, hrun]
  -- the blocks that the lines left open are told from those above by their label, so both closed as many
  have hcount : count = closes base m.bare := by
    have hrest : ∀ k, (base.drop k).countP (·.1 = label) = 0 := by
      intro k
      rw [List.countP_eq_zero]
      intro block hb
      simpa using hbase block (List.mem_of_mem_drop hb)
    have hall : opened.countP (·.1 = label) = opened.length := by
      rw [List.countP_eq_length]
      intro block hb
      obtain ⟨old, hold, heq⟩ := List.mem_map.1 (h.opened_mem block hb)
      simpa using heq.symm.trans (hlabel old hold)
    have hown := congrArg (List.countP (·.1 = label)) hstack
    rw [afterLine, List.countP_append, List.countP_append, hrest, hrest, hall, List.countP_replicate] at hown
    have hlen := congrArg List.length hstack
    have hle := h.count_le
    have hmin := closes_le_length base m.bare
    simp only [decide_true, if_true, Nat.add_zero] at hown
    simp only [afterLine, List.length_append, List.length_drop, List.length_replicate, hown] at hlen
    rw [closes, Mark.bare, hignored] at hmin ⊢
    simp only at hmin hlen ⊢
    omega
  refine ⟨?_, ?_⟩
  · simp only [hstack, step, closes, afterLine, Mark.bare, hm, hignored]
  · have hends : outer = (outer.map (·.1)).map fun x => (x, label) := by
      rw [Multiset.map_map]
      refine (Multiset.map_id outer).symm.trans (Multiset.map_congr rfl fun p hp => ?_)
      obtain ⟨old, hold, heq⟩ := List.mem_map.1 (h.outer_mem p hp)
      exact Prod.ext rfl (heq.symm.trans (hlabel old hold))
    rw [hends, h.outer_starts, step, Mark.alone_bare, ← hcount, add_zero, zero_add, Multiset.map_coe, List.map_map]
    simp only [Mark.bare, hm]
    rfl

end Sweep

namespace Layout

/-! ## Collapsed lines alone, and blocks -/

/-- the segments of collapsed lines alone: of what ended, those of one row -/
def alone (lines : List FoldLine) : List Segment := (ended lines).filter fun s => s.start.row = s.stop.row

/-- the segments that a line closed: of what ended, those that began above -/
def closedByToken (lines : List FoldLine) : List Segment := (ended lines).filter fun s => s.start.row < s.stop.row

/-- the segments of a layout, apart from those of collapsed lines alone -/
def blocks (lines : List FoldLine) : Multiset Segment := (build lines).segments - (alone lines : Multiset Segment)

theorem row_selfOf {lines : List FoldLine} {line : FoldLine} {s : Segment} (h : s ∈ (state lines).selfOf line) :
    s.start.row = s.stop.row := by
  unfold FoldState.selfOf at h
  split_ifs at h
  · rw [List.mem_singleton.1 h]
    rfl
  · cases h

theorem row_closedBy {lines : List FoldLine} {line : FoldLine} {s : Segment} (h : s ∈ (state lines).closedBy line) :
    s.start.row < s.stop.row := by
  obtain ⟨block, hblock, rfl⟩ := List.mem_map.1 h
  have hentry : block.entry ∈ (sweep lines).stack := by
    rw [← sweep_state]
    exact List.mem_map_of_mem (List.mem_of_mem_take hblock)
  have hlt := (stack_row hentry).1
  rw [← state_row] at hlt
  exact hlt

theorem closedByToken_append (front : List FoldLine) (line : FoldLine) :
    closedByToken (front ++ [line]) = ((state front).closedBy line).reverse ++ closedByToken front := by
  have hself : ((state front).selfOf line).filter (fun s => s.start.row < s.stop.row) = [] := by
    rw [List.filter_eq_nil_iff]
    intro s hs
    simpa using (row_selfOf hs).ge
  have hclosed : ((state front).closedBy line).reverse.filter (fun s => s.start.row < s.stop.row) =
      ((state front).closedBy line).reverse := by
    rw [List.filter_eq_self]
    exact fun s hs => decide_eq_true (row_closedBy (List.mem_reverse.1 hs))
  rw [closedByToken, ended, state_append, FoldState.step_segments, List.filter_append, List.filter_append, hself, hclosed,
    List.nil_append]
  rfl

/-- what ended is a collapsed line alone, or was closed by a line -/
theorem ended_perm (lines : List FoldLine) : (ended lines).Perm (alone lines ++ closedByToken lines) := by
  have hle : ∀ s ∈ ended lines, s.start.row ≤ s.stop.row := by
    intro s hs
    obtain ⟨front, line, below, rfl, hself | hclosed⟩ := mem_ended hs
    · exact (row_selfOf hself).le
    · exact (row_closedBy hclosed).le
  have hrest : (ended lines).filter (fun s => !decide (s.start.row = s.stop.row)) = closedByToken lines := by
    refine List.filter_congr fun s hs => ?_
    have hrow := hle s hs
    rw [← decide_not, decide_eq_decide]
    omega
  rw [← hrest]
  exact (List.filter_append_perm _ _).symm

/-- **Apart from collapsed lines alone**, a segment was closed by a line below its first one, or is open at the last line. -/
theorem blocks_eq (lines : List FoldLine) : blocks lines = (closedByToken lines ++ unended lines : List Segment) := by
  have hperm : (build lines).segments.Perm (alone lines ++ (closedByToken lines ++ unended lines)) := by
    rw [← List.append_assoc]
    exact (build_perm lines).trans ((ended_perm lines).append_right _)
  rw [blocks, Multiset.coe_eq_coe.2 hperm, ← Multiset.coe_add, add_tsub_cancel_left]

/-! ## Blocks as a sweep over bare marks -/

/-- the sweep over the lines as if none were collapsed -/
def bareSweep (lines : List FoldLine) : Sweep (LineId × Nat) := Sweep.run {} ((marksFrom 0 lines).map Mark.bare)

theorem bareSweep_append (front : List FoldLine) (line : FoldLine) :
    bareSweep (front ++ [line]) = (bareSweep front).step (line.mark front.length).bare := by
  rw [bareSweep, marksFrom_append, List.map_append, Sweep.run_append, Nat.zero_add]
  rfl

/-- which lines are collapsed does not matter to the open blocks -/
theorem bareSweep_stack (lines : List FoldLine) : (bareSweep lines).stack = (sweep lines).stack := by
  induction lines using List.reverseRecOn with
  | nil => rfl
  | append_singleton front line ih =>
    rw [bareSweep_append, sweep, marksFrom_append, Sweep.run_append, ← sweep, Nat.zero_add]
    simp only [marksFrom, Sweep.run_cons, Sweep.run_nil, Sweep.step, ih]
    rfl

theorem ends_closedByToken (lines : List FoldLine) :
    ((closedByToken lines).map Segment.ends : Multiset _) = (bareSweep lines).closed := by
  induction lines using List.reverseRecOn with
  | nil => rfl
  | append_singleton front line ih =>
    rw [closedByToken_append, List.map_append, List.map_reverse, FoldState.ends_closedBy, ← Multiset.coe_add,
      Multiset.coe_reverse, ih, bareSweep_append, Sweep.step, bareSweep_stack, sweep_state, state_row, Mark.alone_bare,
      add_zero, add_comm]
    rfl

/-! ## Lines merged -/

/-- the marker is on one of `count` lines from `row` on -/
def Within (row count : Nat) (m : Marker) : Prop := row ≤ m.row ∧ m.row < row + count

instance (row count : Nat) (m : Marker) : Decidable (Within row count m) := inferInstanceAs (Decidable (_ ∧ _))

/-- the line of a marker once `count` lines from `row` on are one line `id` -/
def movedLine (row count : Nat) (id : LineId) (m : Marker) : LineId := if Within row count m then id else m.line

/-- the lines of a segment once `count` lines from `row` on are one line `id` -/
def movedLines (row count : Nat) (id : LineId) (s : Segment) : LineId × LineId :=
  (movedLine row count id s.start, movedLine row count id s.stop)

end Layout

/-- a collapsed line that stands for `first` and the lines that follow it: under the id of the first one, with what they
open and close together -/
structure FoldLine.StandsFor (line first : FoldLine) (others : List FoldLine) : Prop where
  id : line.id = first.id
  ignored : line.ignored = first.ignored
  collapsed : line.collapsed = true
  tally : line.tally = others.foldl (fun total other => total + other.tally) first.tally

namespace Layout

section Merged

variable {above others below : List FoldLine} {first line : FoldLine}

theorem foldl_tally (total : Tally) (lines : List FoldLine) :
    lines.foldl (fun total other => total + other.tally) total = total + (lines.map FoldLine.tally).sum := by
  induction lines generalizing total with
  | nil => exact (add_zero total).symm
  | cons other lines ih => rw [List.foldl_cons, ih, List.map_cons, List.sum_cons, add_assoc]

/-- what the one line opens and closes is what the lines do, one after the other -/
theorem pair_standsFor (h : line.StandsFor first others) (hcontext : ∀ other ∈ others, other.ignored = first.ignored)
    (row : Nat) :
    line.tally.pair line.ignored = ((marksFrom row (first :: others)).map (·.pair)).sum := by
  have hpairs : ∀ (row : Nat) (lines : List FoldLine), (∀ other ∈ lines, other.ignored = first.ignored) →
      (marksFrom row lines).map (·.pair) = (lines.map FoldLine.tally).map fun t => t.pair first.ignored := by
    intro row lines hlines
    induction lines generalizing row with
    | nil => rfl
    | cons other lines ih =>
      rw [List.forall_mem_cons] at hlines
      rw [marksFrom, List.map_cons, ih _ hlines.2, FoldLine.mark, hlines.1]
      rfl
  rw [hpairs row (first :: others) (List.forall_mem_cons.2 ⟨rfl, hcontext⟩), ← Tally.pair_sum, h.tally, foldl_tally,
    h.ignored, List.map_cons, List.sum_cons]

/-- the place of a line once `count` lines from `row` on are one line `id` at that row -/
def movedPlace (row count : Nat) (id : LineId) (x : LineId × Nat) : LineId × Nat :=
  if row ≤ x.2 ∧ x.2 < row + count then (id, row) else x

theorem movedPlace_of_lt {row count : Nat} {id : LineId} {x : LineId × Nat} (h : x.2 < row) :
    movedPlace row count id x = x := if_neg fun hx => absurd h (Nat.not_lt.2 hx.1)

theorem movedPlace_of_ge {row count : Nat} {id : LineId} {x : LineId × Nat} (h : row + count ≤ x.2) :
    movedPlace row count id x = x := if_neg fun hx => absurd hx.2 (Nat.not_lt.2 h)

theorem movedPlace_of_mem {row count : Nat} {id : LineId} {x : LineId × Nat} (hle : row ≤ x.2) (hlt : x.2 < row + count) :
    movedPlace row count id x = (id, row) := if_pos ⟨hle, hlt⟩

/-- the marks of the lines to merge, as if none were collapsed -/
def mergedMarks (above : List FoldLine) (first : FoldLine) (others : List FoldLine) : List (Mark (LineId × Nat)) :=
  (marksFrom above.length (first :: others)).map Mark.bare

theorem mem_mergedMarks {x : LineId × Nat} (h : x ∈ (mergedMarks above first others).map (·.label)) :
    above.length ≤ x.2 ∧ x.2 < above.length + (others.length + 1) := by
  rw [mergedMarks, Mark.map_label_bare] at h
  obtain ⟨hle, hlt, -⟩ := mem_labels h
  exact ⟨hle, hlt⟩

theorem mem_bareBelow {stack : List ((LineId × Nat) × Bool)} {row : Nat} {p : (LineId × Nat) × (LineId × Nat)}
    (h : p ∈ (Sweep.run ⟨stack, 0⟩ ((marksFrom row below).map Mark.bare)).closed) : row ≤ p.2.2 := by
  have hlabel := Sweep.end_of_mem_closed h
  rw [Mark.map_label_bare] at hlabel
  exact (mem_labels hlabel).1

/-- the sweep over all lines, cut at both ends of the lines to merge -/
theorem bareSweep_split (above : List FoldLine) (first : FoldLine) (others below : List FoldLine) :
    let block := Sweep.run ⟨(sweep above).stack, 0⟩ (mergedMarks above first others)
    let rest := Sweep.run ⟨block.stack, 0⟩ ((marksFrom (above.length + (others.length + 1)) below).map Mark.bare)
    bareSweep (above ++ first :: others ++ below) =
      ⟨rest.stack, (bareSweep above).closed + block.closed + rest.closed⟩ := by
  intro block rest
  have hblock := Sweep.run_closed (sweep above).stack (bareSweep above).closed (mergedMarks above first others)
  have hrest := Sweep.run_closed block.stack ((bareSweep above).closed + block.closed)
    ((marksFrom (above.length + (others.length + 1)) below).map Mark.bare)
  have hrun : (bareSweep above).run (mergedMarks above first others) =
      ⟨block.stack, (bareSweep above).closed + block.closed⟩ := by
    rw [← hblock.1, ← hblock.2, ← bareSweep_stack]
  have hmarks : marksFrom 0 (above ++ first :: others ++ below) = marksFrom 0 above ++
      (marksFrom above.length (first :: others) ++ marksFrom (above.length + (others.length + 1)) below) := by
    rw [List.append_assoc, marksFrom_append, marksFrom_append, Nat.zero_add, List.length_cons]
  rw [bareSweep, hmarks, List.map_append, List.map_append, Sweep.run_append, Sweep.run_append, ← bareSweep, ← mergedMarks,
    hrun, ← hrest.1, ← hrest.2]

/-- no stretch that a line closed is lost but for those within the lines to merge -/
theorem filter_bareSweep {opened : List ((LineId × Nat) × Bool)} {count : Nat}
    {inner outer : Multiset ((LineId × Nat) × (LineId × Nat))}
    (h : Sweep.Over (sweep above).stack (mergedMarks above first others) opened count inner outer
      (Sweep.run ⟨(sweep above).stack, 0⟩ (mergedMarks above first others))) :
    ((bareSweep (above ++ first :: others ++ below)).closed.filter fun p =>
      ¬ ((above.length ≤ p.1.2 ∧ p.1.2 < above.length + (others.length + 1)) ∧
        (above.length ≤ p.2.2 ∧ p.2.2 < above.length + (others.length + 1)))) =
      (bareSweep above).closed + outer + (Sweep.run
        ⟨(Sweep.run ⟨(sweep above).stack, 0⟩ (mergedMarks above first others)).stack, 0⟩
        ((marksFrom (above.length + (others.length + 1)) below).map Mark.bare)).closed := by
  have habove : ∀ p ∈ (bareSweep above).closed, p.1.2 < above.length := by
    intro p hp
    have hlabel := (Sweep.mem_closed hp).1
    rw [Mark.map_label_bare] at hlabel
    simpa using (mem_labels hlabel).2.1
  have hinner : ∀ p ∈ inner, (above.length ≤ p.1.2 ∧ p.1.2 < above.length + (others.length + 1)) ∧
      (above.length ≤ p.2.2 ∧ p.2.2 < above.length + (others.length + 1)) :=
    fun p hp => ⟨mem_mergedMarks (h.inner_mem p hp).1, mem_mergedMarks (h.inner_mem p hp).2⟩
  have houter : ∀ p ∈ outer, p.1.2 < above.length := by
    intro p hp
    obtain ⟨block, hb, heq⟩ := h.outer_start hp
    exact heq ▸ (stack_row hb).1
  rw [bareSweep_split]
  simp only [h.closed, Multiset.filter_add]
  rw [Multiset.filter_eq_self.2 fun p hp hin => absurd hin.1.1 (Nat.not_le.2 (habove p hp)),
    Multiset.filter_eq_nil.2 fun p hp hout => hout (hinner p hp),
    Multiset.filter_eq_self.2 fun p hp hin => absurd hin.1.1 (Nat.not_le.2 (houter p hp)),
    Multiset.filter_eq_self.2 fun p hp hin => absurd hin.2.2 (Nat.not_lt.2 (mem_bareBelow hp)), zero_add]

/-- the blocks open above are where they were -/
theorem map_movedPlace_stack {count : Nat} {target : LineId} :
    (sweep above).stack.map (Prod.map (movedPlace above.length count target) id) = (sweep above).stack := by
  refine (List.map_congr_left fun block hb => ?_).trans (List.map_id _)
  exact Prod.ext (movedPlace_of_lt (stack_row hb).1) rfl

/-- so are the stretches that were closed there -/
theorem map_movedPlace_closed (count : Nat) (target : LineId) :
    (bareSweep above).closed.map
      (Prod.map (movedPlace above.length count target) (movedPlace above.length count target)) = (bareSweep above).closed := by
  refine (Multiset.map_congr rfl fun p hp => ?_).trans (Multiset.map_id _)
  have hlabels := Sweep.mem_closed hp
  rw [Mark.map_label_bare] at hlabels
  have h1 := (mem_labels hlabels.1).2.1
  have h2 := (mem_labels hlabels.2).2.1
  rw [Nat.zero_add] at h1 h2
  exact Prod.ext (movedPlace_of_lt h1) (movedPlace_of_lt h2)

/-- the lines below are under their own ids, wherever they are -/
theorem map_movedPlace_below {count : Nat} {target : LineId} :
    ((marksFrom (above.length + count) below).map Mark.bare).map
      (Mark.map (Prod.fst ∘ movedPlace above.length count target)) = (below.map FoldLine.idMark).map Mark.bare := by
  rw [Mark.map_map_bare, ← map_fst_marksFrom (above.length + count)]
  refine congrArg (List.map Mark.bare) (List.map_congr_left fun m hm => ?_)
  rw [Mark.map, Function.comp, movedPlace_of_ge (mem_labels (List.mem_map_of_mem hm)).1]
  rfl

theorem ends_blocks (front : List FoldLine) (last : FoldLine) :
    (blocks (front ++ [last])).map Segment.ends = (bareSweep (front ++ [last])).stretches (last.id, front.length) := by
  rw [blocks_eq, Multiset.map_coe, List.map_append, ← Multiset.coe_add, ends_closedByToken, ends_unended, Sweep.stretches,
    bareSweep_stack]

theorem exists_last_line (above : List FoldLine) (line : FoldLine) (below : List FoldLine) :
    ∃ front last, above ++ line :: below = front ++ [last] ∧ last.id = lastId line below := by
  rcases List.eq_nil_or_concat below with rfl | ⟨rest, last, rfl⟩
  · exact ⟨above, line, rfl, rfl⟩
  · exact ⟨above ++ line :: rest, last, by simp, by simp [lastId]⟩

/-- the blocks once a line is passed as a line of its own -/
theorem lines_blocks (above : List FoldLine) (line : FoldLine) (below : List FoldLine) :
    let passed := Sweep.step ⟨(sweep above).stack, 0⟩ (line.mark above.length).bare
    (blocks (above ++ line :: below)).map Segment.lines =
      ((bareSweep above).closed + passed.closed).map (Prod.map Prod.fst Prod.fst) +
        (Sweep.run ⟨passed.stack.map (Prod.map Prod.fst id), 0⟩ ((below.map FoldLine.idMark).map Mark.bare)).stretches
          (lastId line below) := by
  intro passed
  obtain ⟨front, last, hlines, hlast⟩ := exists_last_line above line below
  have hsplit := bareSweep_split above line [] below
  have hfst : (blocks (above ++ line :: below)).map Segment.lines =
      ((blocks (above ++ line :: below)).map Segment.ends).map (Prod.map Prod.fst Prod.fst) := by
    rw [Multiset.map_map]
    rfl
  have hbelow : ((Sweep.run ⟨passed.stack, 0⟩ ((marksFrom (above.length + 1) below).map Mark.bare)).stretches
        (last.id, front.length)).map (Prod.map Prod.fst Prod.fst) =
      (Sweep.run ⟨passed.stack.map (Prod.map Prod.fst id), 0⟩ ((below.map FoldLine.idMark).map Mark.bare)).stretches
          (lastId line below) := by
    rw [Sweep.stretches_map, Sweep.map_run, Mark.map_map_bare, map_fst_marksFrom, hlast]
    rfl
  rw [hfst, hlines, ends_blocks, ← hlines, ← hbelow, ← Multiset.map_add, List.append_cons, hsplit, Sweep.stretches,
    Sweep.stretches]
  simp only [List.length_nil, Nat.zero_add, ← add_assoc]
  rfl

/-- the segments but for those closed within the lines to merge -/
theorem blocks_sub (lines : List FoldLine) (inside : Segment → Prop) [DecidablePred inside] :
    blocks lines - ((closedByToken lines).filter inside : List Segment) =
      ((closedByToken lines).filter (fun s => ¬ inside s) ++ unended lines : List Segment) := by
  have hperm : (closedByToken lines ++ unended lines).Perm
      ((closedByToken lines).filter inside ++
        ((closedByToken lines).filter (fun s => ¬ inside s) ++ unended lines)) := by
    rw [← List.append_assoc]
    simp only [decide_not]
    exact (List.filter_append_perm _ _).symm.append_right _
  rw [blocks_eq, Multiset.coe_eq_coe.2 hperm, ← Multiset.coe_add, add_tsub_cancel_left]

/-- the last line, which may be one of those to merge -/
theorem exists_last_moved (above : List FoldLine) (first : FoldLine) (others below : List FoldLine) :
    ∃ front last, above ++ first :: others ++ below = front ++ [last] ∧
      (movedPlace above.length (others.length + 1) first.id (last.id, front.length)).1 = lastId first below := by
  rcases List.eq_nil_or_concat below with rfl | ⟨rest, last, rfl⟩
  · obtain hnil | ⟨front, last, hblock⟩ := List.eq_nil_or_concat (first :: others)
    · cases hnil
    rw [List.concat_eq_append] at hblock
    have hlen := congrArg List.length hblock
    simp only [List.length_cons, List.length_append, List.length_nil] at hlen
    refine ⟨above ++ front, last, by simp [hblock], ?_⟩
    rw [movedPlace_of_mem (by simp) (by simp only [List.length_append]; omega)]
    rfl
  · refine ⟨above ++ first :: others ++ rest, last, by simp, ?_⟩
    rw [movedPlace_of_ge (by simp only [List.length_append, List.length_cons]; omega)]
    simp [lastId]

theorem map_movedLines (row size : Nat) (target : LineId) (segments : List Segment) :
    (segments.map (movedLines row size target) : Multiset _) =
      (segments.map Segment.ends : Multiset _).map
        (Prod.map (Prod.fst ∘ movedPlace row size target) (Prod.fst ∘ movedPlace row size target)) := by
  have hmoved : ∀ m : Marker, movedLine row size target m = (movedPlace row size target m.place).1 := by
    intro m
    rw [movedPlace, apply_ite Prod.fst]
    rfl
  rw [Multiset.map_coe, List.map_map]
  refine congrArg _ (List.map_congr_left fun s _ => ?_)
  exact Prod.ext (hmoved s.start) (hmoved s.stop)

/-- what is kept of the blocks: those closed above, those that the lines closed, and those that are open below them -/
theorem lines_kept {opened : List ((LineId × Nat) × Bool)} {count : Nat}
    {inner outer : Multiset ((LineId × Nat) × (LineId × Nat))}
    (h : Sweep.Over (sweep above).stack (mergedMarks above first others) opened count inner outer
      (Sweep.run ⟨(sweep above).stack, 0⟩ (mergedMarks above first others))) :
    let row := above.length
    let size := others.length + 1
    let lines := above ++ first :: others ++ below
    let moved := movedPlace row size first.id
    let block := (Sweep.run ⟨(sweep above).stack, 0⟩ (mergedMarks above first others)).stack
    (((closedByToken lines).filter (fun s => ¬ (Within row size s.start ∧ Within row size s.stop)) ++
        unended lines).map (movedLines row size first.id) : Multiset _) =
      ((bareSweep above).closed + outer.map (Prod.map moved moved)).map (Prod.map Prod.fst Prod.fst) +
        (Sweep.run ⟨(block.map (Prod.map moved id)).map (Prod.map Prod.fst id), 0⟩
          ((below.map FoldLine.idMark).map Mark.bare)).stretches (lastId first below) := by
  intro row size lines moved block
  obtain ⟨front, last, hlines, hlast⟩ := exists_last_moved above first others below
  set rest := Sweep.run ⟨block, 0⟩ ((marksFrom (row + size) below).map Mark.bare) with hrest
  have hfilter : (((closedByToken lines).filter fun s =>
      ¬ (Within row size s.start ∧ Within row size s.stop)).map Segment.ends : Multiset _) =
      (bareSweep above).closed + outer + rest.closed := by
    rw [← filter_bareSweep h, ← ends_closedByToken, Multiset.filter_coe, List.filter_map]
    rfl
  have hunended : (unended lines).map Segment.ends = rest.stack.map fun opened => (opened.1, (last.id, front.length)) := by
    rw [show lines = front ++ [last] from hlines, ends_unended, ← hlines, ← bareSweep_stack, bareSweep_split]
  have hclosed : ((bareSweep above).closed + outer).map (Prod.map (Prod.fst ∘ moved) (Prod.fst ∘ moved)) =
      ((bareSweep above).closed + outer.map (Prod.map moved moved)).map (Prod.map Prod.fst Prod.fst) := by
    conv_rhs => rw [← map_movedPlace_closed size first.id]
    rw [← Multiset.map_add, Multiset.map_map]
    rfl
  have hbelow : (rest.stretches (last.id, front.length)).map (Prod.map (Prod.fst ∘ moved) (Prod.fst ∘ moved)) =
      (Sweep.run ⟨(block.map (Prod.map moved id)).map (Prod.map Prod.fst id), 0⟩
        ((below.map FoldLine.idMark).map Mark.bare)).stretches (lastId first below) := by
    have hblock : (block.map (Prod.map moved id)).map (Prod.map Prod.fst id) =
        block.map (Prod.map (Prod.fst ∘ moved) id) := by
      rw [List.map_map]
      rfl
    rw [hrest, Sweep.stretches_map, Sweep.map_run, map_movedPlace_below, Function.comp_apply, hlast, hblock]
    rfl
  calc _ = ((bareSweep above).closed + outer + rest.stretches (last.id, front.length)).map
        (Prod.map (Prod.fst ∘ moved) (Prod.fst ∘ moved)) := by
        rw [map_movedLines, List.map_append, ← Multiset.coe_add, hfilter, hunended, add_assoc _ rest.closed]
        rfl
    _ = _ := by rw [Multiset.map_add, hclosed, hbelow]

/-- the one line does to the open blocks what the lines do -/
theorem step_standsFor (h : line.StandsFor first others) (hcontext : ∀ other ∈ others, other.ignored = first.ignored)
    {opened : List ((LineId × Nat) × Bool)} {count : Nat} {inner outer : Multiset ((LineId × Nat) × (LineId × Nat))}
    (hover : Sweep.Over (sweep above).stack (mergedMarks above first others) opened count inner outer
      (Sweep.run ⟨(sweep above).stack, 0⟩ (mergedMarks above first others))) :
    let moved := movedPlace above.length (others.length + 1) first.id
    (Sweep.step ⟨(sweep above).stack, 0⟩ (line.mark above.length).bare).stack =
        (Sweep.run ⟨(sweep above).stack, 0⟩ (mergedMarks above first others)).stack.map (Prod.map moved id) ∧
      (Sweep.step ⟨(sweep above).stack, 0⟩ (line.mark above.length).bare).closed = outer.map (Prod.map moved moved) := by
  intro moved
  have hbase : ∀ block ∈ (sweep above).stack, block.1 ≠ (first.id, above.length) := by
    intro block hb heq
    have hlt := (stack_row hb).1
    rw [heq] at hlt
    exact absurd hlt (Nat.lt_irrefl _)
  have hlabel : ∀ m ∈ (mergedMarks above first others).map (Mark.map moved), m.label = (first.id, above.length) := by
    intro m hm
    obtain ⟨old, hold, rfl⟩ := List.mem_map.1 hm
    obtain ⟨hle, hlt⟩ := mem_mergedMarks (List.mem_map_of_mem hold)
    exact movedPlace_of_mem hle hlt
  have hone : ∀ m ∈ (mergedMarks above first others).map (Mark.map moved), m.ignored = first.ignored := by
    intro m hm
    obtain ⟨bare, hbare, rfl⟩ := List.mem_map.1 hm
    obtain ⟨mark, hmark, rfl⟩ := List.mem_map.1 hbare
    obtain ⟨i, other, hget, rfl⟩ := mem_marksFrom hmark
    rcases List.mem_cons.1 (List.mem_of_getElem? hget) with rfl | hother
    · rfl
    · exact hcontext other hother
  have hpair : (line.mark above.length).pair = (((mergedMarks above first others).map (Mark.map moved)).map (·.pair)).sum := by
    rw [mergedMarks, List.map_map, List.map_map]
    exact pair_standsFor h hcontext above.length
  have hmapped := hover.map moved
  rw [Sweep.map_run, map_movedPlace_stack] at hmapped
  have hstart : (⟨(sweep above).stack, 0⟩ : Sweep (LineId × Nat)).map moved = ⟨(sweep above).stack, 0⟩ := by
    simp only [Sweep.map, Multiset.map_zero, map_movedPlace_stack, moved]
  rw [hstart] at hmapped
  obtain ⟨hstack, hclosed⟩ := Sweep.run_eq_step (line.mark above.length) hbase hlabel hone
    (Prod.ext h.id rfl) h.ignored hpair hmapped
  refine ⟨?_, hclosed⟩
  rw [hstack, hover.stack, List.map_append, List.map_drop, map_movedPlace_stack]

end Merged

/-- a line that is not ignored, by its id and what it opens and closes -/
def plainLine (id : LineId) (opened closed : Nat) (collapsed : Bool) : FoldLine :=
  ⟨id, 0, 0, ⟨⟨opened, closed⟩, {}⟩, false, collapsed, 0⟩

end Layout

end Linewise
