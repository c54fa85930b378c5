/-
The segments that folding all blocks goes through, and in which order.

These are the segments of more than one line that begin on no collapsed line (`Segment.eligible`). A segment hides the lines
below its first one down to its last one, or to the one above that if the last one opens the next block
(`Segment.hideable`).

`Plan` is all that the pass needs to know of them: inner ones come first; of two with the same rows, one that leaves out its
last line comes before one that does not, and then they end on the last line of the document (`twins`, `last`); and what
begins on a line that another one hides, hides nothing below that one's last (`nested`).

Main statement: `Layout.build_plan`.
-/
import Linewise.Proofs.Fold.CollapseBlocks
import Linewise.Proofs.Fold.Laminar
import Linewise.Proofs.Fold.Merge

namespace Linewise

namespace Segment

/-- the segment has more than one line, and begins on one that is not collapsed -/
def eligible (s : Segment) : Bool := !s.has .collapsed && !s.isEmpty

/-- the row of the last line that the segment hides: the one above its last line if that opens the next block -/
def hideable (s : Segment) : Nat := if s.has .beginOnly then s.stop.row - 1 else s.stop.row

theorem hideable_le (s : Segment) : s.hideable ≤ s.stop.row := by
  unfold hideable
  split_ifs <;> omega

theorem stop_le_hideable (s : Segment) : s.stop.row ≤ s.hideable + 1 := by
  unfold hideable
  split_ifs <;> omega

theorem hideable_of_plain {s : Segment} (h : s.has .beginOnly = false) : s.hideable = s.stop.row := by
  rw [hideable, h]
  rfl

theorem hideable_of_beginOnly {s : Segment} (h : s.has .beginOnly = true) : s.hideable = s.stop.row - 1 := by
  rw [hideable, if_pos h]

/-! ## Segments with the same rows -/

theorem filter_place (s : Segment) (segments : List Segment) (p : Nat × Nat) :
    (s.place segments).filter (·.rows = p) = (s :: segments).filter (·.rows = p) := by
  induction segments with
  | nil => rfl
  | cons t rest ih =>
    rw [place]
    split_ifs with hst
    · rfl
    · -- a segment with the same rows would have been put before `t`
      have hrows : ¬ (s.rows = p ∧ t.rows = p) := by
        rintro ⟨hs, ht⟩
        obtain ⟨hstart, hstop⟩ := Prod.mk.inj (hs.trans ht.symm)
        rw [innerFirst_iff] at hst
        omega
      simp only [List.filter_cons, ih, decide_eq_true_eq]
      split_ifs <;> first | rfl | exact absurd ⟨‹_›, ‹_›⟩ hrows

/-- segments with the same rows keep their order -/
theorem filter_sort (segments : List Segment) (p : Nat × Nat) :
    (sort segments).filter (·.rows = p) = segments.filter (·.rows = p) := by
  induction segments with
  | nil => rfl
  | cons s rest ih =>
    calc (sort (s :: rest)).filter (·.rows = p)
        _ = (s :: sort rest).filter (·.rows = p) := filter_place s (sort rest) p
        _ = (s :: rest).filter (·.rows = p) := by rw [List.filter_cons, List.filter_cons, ih]

/-- what holds of any two segments with the same rows, in their order, does so once they are sorted -/
theorem pairwise_sort {segments : List Segment} {r : Segment → Segment → Prop}
    (h : segments.Pairwise fun s t => s.rows = t.rows → r s t) : (sort segments).Pairwise fun s t => s.rows = t.rows → r s t := by
  rw [List.pairwise_iff_forall_sublist] at h ⊢
  intro s t hst hrows
  have hkept : [s, t].filter (·.rows = t.rows) = [s, t] := by simp [hrows]
  have hsub := hst.filter (·.rows = t.rows)
  rw [hkept, filter_sort] at hsub
  exact h (hsub.trans List.filter_sublist) hrows

end Segment

/-- segments to fold in a document of so many rows -/
structure Plan (count : Nat) (todo : List Segment) : Prop where
  proper : ∀ s ∈ todo, s.start.row < s.stop.row ∧ s.stop.row < count
  sorted : todo.Pairwise fun s t => s.innerFirst t = true
  twins : todo.Pairwise fun s t => s.rows = t.rows → t.has .beginOnly = true → s.has .beginOnly = true
  last : ∀ s ∈ todo, ∀ t ∈ todo, s.rows = t.rows → s.has .beginOnly = true → t.has .beginOnly = false →
    t.stop.row + 1 = count
  nested : ∀ s ∈ todo, ∀ t ∈ todo, s.start.row < t.start.row → t.start.row ≤ s.hideable → t.hideable ≤ s.hideable

/-! ## Flags -/

namespace FoldState

theorem flagsOf_beginOnly (line : FoldLine) : (flagsOf line).contains .beginOnly = false := by
  simp only [flagsOf]
  cases line.ignored <;> cases line.collapsed <;> rfl

theorem flagsOf_collapsed (line : FoldLine) : (flagsOf line).contains .collapsed = line.collapsed := by
  simp only [flagsOf]
  cases line.ignored <;> cases line.collapsed <;> rfl

theorem union_beginOnly (line : FoldLine) (opens : Bool) :
    ((flagsOf line).union (.when opens .beginOnly)).contains .beginOnly = opens := by
  simp only [flagsOf]
  cases line.ignored <;> cases line.collapsed <;> cases opens <;> rfl

theorem union_collapsed (line : FoldLine) (opens : Bool) :
    ((flagsOf line).union (.when opens .beginOnly)).contains .collapsed = line.collapsed := by
  simp only [flagsOf]
  cases line.ignored <;> cases line.collapsed <;> cases opens <;> rfl

end FoldState

namespace Layout

variable {lines : List FoldLine} {s t : Segment}

/-- how many blocks the line at a row opens -/
def opensAt (lines : List FoldLine) (row : Nat) : Nat :=
  (lines[row]?.map fun line => (line.tally.pair line.ignored).opened).getD 0

theorem opensAt_split (above : List FoldLine) (line : FoldLine) (below : List FoldLine) :
    opensAt (above ++ line :: below) above.length = (line.tally.pair line.ignored).opened := by
  rw [opensAt, List.getElem?_append_right (Nat.le_refl _), Nat.sub_self]
  rfl

/-- an open block was opened by a line, and has the flags of that line -/
theorem mem_state_stack {block : OpenBlock} (h : block ∈ (state lines).stack) :
    ∃ above line below, lines = above ++ line :: below ∧
      block = ⟨(state above).startOf line, FoldState.flagsOf line⟩ ∧ 0 < (line.tally.pair line.ignored).opened := by
  induction lines using List.reverseRecOn with
  | nil => cases h
  | append_singleton front line ih =>
    rw [state_append, FoldState.step_stack] at h
    rcases List.mem_append.1 h with hnew | hold
    · exact ⟨front, line, [], rfl, List.eq_of_mem_replicate hnew,
        Nat.pos_of_ne_zero fun hzero => by rw [hzero] at hnew; cases hnew⟩
    · obtain ⟨above, other, below, rfl, hblock⟩ := ih (List.mem_of_mem_drop hold)
      exact ⟨above, other, below ++ [line], by simp, hblock⟩

/-- a segment that a line closed which ends below it, or one that runs to the last line -/
theorem mem_build (h : s ∈ (build lines).segments) (hlt : s.start.row < s.stop.row) :
    (∃ front line below, lines = front ++ line :: below ∧ s ∈ (state front).closedBy line) ∨ s ∈ unended lines := by
  rcases List.mem_append.1 ((build_perm lines).mem_iff.1 h) with hended | hunended
  · obtain ⟨front, line, below, hl, hself | hclosed⟩ := mem_ended hended
    · exact absurd (row_selfOf hself) hlt.ne
    · exact .inl ⟨front, line, below, hl, hclosed⟩
  · exact .inr hunended

/-- a segment of more than one line begins on one that opens blocks, and is collapsed if that line is -/
theorem exists_opener (h : s ∈ (build lines).segments) (hlt : s.start.row < s.stop.row) :
    ∃ above line below, lines = above ++ line :: below ∧ s.start.row = above.length ∧
      s.has .collapsed = line.collapsed ∧ 0 < (line.tally.pair line.ignored).opened := by
  rcases mem_build h hlt with ⟨front, line, below, rfl, hclosed⟩ | hunended
  · obtain ⟨block, hblock, rfl⟩ := List.mem_map.1 hclosed
    obtain ⟨above, opener, others, rfl, rfl, hopened⟩ := mem_state_stack (List.mem_of_mem_take hblock)
    exact ⟨above, opener, others ++ line :: below, by simp, state_row above, FoldState.union_collapsed opener _, hopened⟩
  · unfold unended at hunended
    split at hunended
    · cases hunended
    · obtain ⟨block, hblock, rfl⟩ := List.mem_map.1 hunended
      obtain ⟨above, opener, below, rfl, rfl, hopened⟩ := mem_state_stack hblock
      exact ⟨above, opener, below, rfl, state_row above, FoldState.flagsOf_collapsed opener, hopened⟩

theorem opensAt_start (h : s ∈ (build lines).segments) (hlt : s.start.row < s.stop.row) :
    0 < opensAt lines s.start.row := by
  obtain ⟨above, line, below, rfl, hrow, -, hopened⟩ := exists_opener h hlt
  rwa [hrow, opensAt_split]

/-- a segment that a line closed leaves out that line if it opens the next block -/
theorem beginOnly_ended (h : s ∈ ended lines) (hlt : s.start.row < s.stop.row) :
    s.has .beginOnly = decide (0 < opensAt lines s.stop.row) := by
  obtain ⟨front, line, below, rfl, hself | hclosed⟩ := mem_ended h
  · exact absurd (row_selfOf hself) hlt.ne
  · obtain ⟨block, hblock, rfl⟩ := List.mem_map.1 hclosed
    have hrow : ((state front).stopOf line).row = front.length := state_row front
    obtain ⟨_, opener, _, _, rfl, _⟩ := mem_state_stack (List.mem_of_mem_take hblock)
    rw [Segment.has, hrow, opensAt_split]
    exact FoldState.union_beginOnly opener _

/-- a segment that runs to the last line leaves out none -/
theorem beginOnly_unended (h : s ∈ unended lines) : s.has .beginOnly = false := by
  unfold unended at h
  split at h
  · cases h
  · obtain ⟨block, hblock, rfl⟩ := List.mem_map.1 h
    obtain ⟨_, opener, _, _, rfl, _⟩ := mem_state_stack hblock
    exact FoldState.flagsOf_beginOnly opener

theorem stop_unended (h : s ∈ unended lines) : s.stop.row + 1 = lines.length := by
  rcases List.eq_nil_or_concat lines with rfl | ⟨front, last, rfl⟩
  · cases h
  · rw [List.concat_eq_append] at h ⊢
    have hmap := List.mem_map_of_mem (f := Segment.ends) h
    rw [ends_unended] at hmap
    obtain ⟨_, _, hends⟩ := List.mem_map.1 hmap
    have hrow : front.length = s.stop.row := congrArg (·.2.2) hends
    rw [List.length_append, List.length_singleton, hrow]

theorem mem_ended_of_beginOnly (h : s ∈ (build lines).segments) (hb : s.has .beginOnly = true) : s ∈ ended lines := by
  rcases List.mem_append.1 ((build_perm lines).mem_iff.1 h) with hended | hunended
  · exact hended
  · rw [beginOnly_unended hunended] at hb
    cases hb

/-! ## Rows -/

/-- a segment with two lines has two rows -/
theorem row_lt_of_eligible (h : s ∈ (build lines).segments) (he : s.eligible = true) : s.start.row < s.stop.row := by
  refine lt_of_le_of_ne (start_row_le h) fun hrows => ?_
  obtain ⟨⟨above, line, below, hl, hstart⟩, ⟨above', line', below', hl', hstop⟩⟩ := segments_marked h
  have hrow : s.stop.row = above'.length := (congrArg Marker.row hstop).trans (state_row above')
  have hrow' : s.start.row = above.length := (congrArg Marker.row hstart).trans (state_row above)
  have hsplit := List.append_inj (hl.symm.trans hl') (by omega)
  have hline : line = line' := (List.cons.inj hsplit.2).1
  have hempty : s.isEmpty = true := by
    rw [Segment.isEmpty, hstart, hstop, hline, beq_iff_eq]
    rfl
  rw [Segment.eligible, hempty] at he
  simp at he

/-- what was closed, by row -/
theorem rows_ended (h : s ∈ ended lines) : s.rows ∈ (Sweep.run {} (rowMarks 0 lines)).closed := by
  have hmap : ((ended lines).map Segment.rows : Multiset (Nat × Nat)) = (Sweep.run {} (rowMarks 0 lines)).closed := by
    calc ((ended lines).map Segment.rows : Multiset (Nat × Nat))
        _ = ((ended lines).map Segment.ends : Multiset ((LineId × Nat) × (LineId × Nat))).map (Prod.map Prod.snd Prod.snd) := by
          rw [Multiset.map_coe, List.map_map]
          rfl
        _ = ((sweep lines).map Prod.snd).closed := by
          rw [ends_ended]
          rfl
        _ = (Sweep.run {} (rowMarks 0 lines)).closed := by
          rw [sweep, Sweep.map_run]
          rfl
  rw [← hmap]
  exact Multiset.mem_coe.2 (List.mem_map_of_mem h)

/-- what is open at the end, by row -/
theorem start_unended (h : s ∈ unended lines) :
    ∃ block ∈ (Sweep.run {} (rowMarks 0 lines)).stack, block.1 = s.start.row := by
  have hstack : (Sweep.run {} (rowMarks 0 lines)).stack = (sweep lines).stack.map (Prod.map Prod.snd id) := by
    calc (Sweep.run {} (rowMarks 0 lines)).stack
        _ = ((sweep lines).map Prod.snd).stack := by
          rw [sweep, Sweep.map_run]
          rfl
        _ = (sweep lines).stack.map (Prod.map Prod.snd id) := rfl
  unfold unended at h
  split at h
  · cases h
  · obtain ⟨block, hblock, rfl⟩ := List.mem_map.1 h
    refine ⟨(block.marker.row, block.flags.contains .ignored), ?_, rfl⟩
    rw [hstack, ← sweep_state, FoldState.sweep, List.map_map]
    exact List.mem_map_of_mem hblock

/-- **What begins on a line that a segment hides, hides nothing below that one's last.** Blocks end innermost first; a line
that opens the next block is the last one of both, or of neither. -/
theorem hideable_nested (hs : s ∈ (build lines).segments) (ht : t ∈ (build lines).segments)
    (hslt : s.start.row < s.stop.row) (htlt : t.start.row < t.stop.row) (hlt : s.start.row < t.start.row)
    (hle : t.start.row ≤ s.hideable) : t.hideable ≤ s.hideable := by
  have hcross : ¬ (s.start.row < t.start.row ∧ t.start.row < s.stop.row ∧ s.stop.row < t.stop.row) :=
    (rows_laminar lines).2 s hs t ht
  have hends := ((rows_laminar lines).1 t ht).2
  have hhides := t.hideable_le
  cases hb : s.has .beginOnly with
  | false =>
    rw [Segment.hideable_of_plain hb] at hle ⊢
    rcases Nat.lt_or_eq_of_le hle with hin | hsame
    · omega
    · -- the last line opens a block, so the segment runs to the last line of the document
      have hopens := opensAt_start ht htlt
      rcases List.mem_append.1 ((build_perm lines).mem_iff.1 hs) with hended | hunended
      · rw [beginOnly_ended hended hslt, ← hsame, decide_eq_false_iff_not] at hb
        exact absurd hopens hb
      · have hstop := stop_unended hunended
        omega
  | true =>
    rw [Segment.hideable_of_beginOnly hb] at hle ⊢
    have hended := mem_ended_of_beginOnly hs hb
    by_cases hstop : t.stop.row = s.stop.row
    · -- both end on the line that opens the next block
      rcases List.mem_append.1 ((build_perm lines).mem_iff.1 ht) with hended' | hunended
      · have hb' : t.has .beginOnly = true := by
          rw [beginOnly_ended hended' htlt, hstop, ← beginOnly_ended hended hslt, hb]
        rw [Segment.hideable_of_beginOnly hb', hstop]
      · -- a block that is still open did not begin in one that ended
        obtain ⟨block, hblock, hrow⟩ := start_unended hunended
        have houtside := (laminar_rowMarks lines).outside s.rows (rows_ended hended) block hblock
        simp only [hrow, Segment.rows] at houtside
        omega
    · omega

/-- **The segments of a layout that can be folded** are in the order in which they are to be. -/
theorem build_plan (lines : List FoldLine) : Plan lines.length ((build lines).segments.filter Segment.eligible) := by
  have hmem : ∀ s ∈ (build lines).segments.filter Segment.eligible,
      s ∈ (build lines).segments ∧ s.start.row < s.stop.row := by
    intro s hs
    obtain ⟨hs, he⟩ := List.mem_filter.1 hs
    exact ⟨hs, row_lt_of_eligible hs he⟩
  refine ⟨fun s hs => ⟨(hmem s hs).2, ((rows_laminar lines).1 s (hmem s hs).1).2⟩, ?_, ?_, ?_, ?_⟩
  · exact (Segment.sort_sorted _).sublist List.filter_sublist
  · -- what ended comes first, and all that ended on one line opens the next block or none does
    have hends : ((ended lines).reverse ++ unended lines).Pairwise fun s t => s.rows = t.rows →
        s.start.row < s.stop.row → t.has .beginOnly = true → s.has .beginOnly = true := by
      have hended : ∀ s ∈ (ended lines).reverse, ∀ t : Segment, t ∈ (ended lines).reverse ∨ t ∈ unended lines →
          s.rows = t.rows → s.start.row < s.stop.row → t.has .beginOnly = true → s.has .beginOnly = true := by
        intro s hs t ht hrows hlt hb
        rw [List.mem_reverse] at hs ht
        obtain ⟨hstart, hstop⟩ := Prod.mk.inj hrows
        rcases ht with ht | ht
        · rw [beginOnly_ended hs hlt, hstop, ← beginOnly_ended ht (by omega), hb]
        · rw [beginOnly_unended ht] at hb
          cases hb
      refine List.pairwise_append.2 ⟨?_, ?_, fun s hs t ht => hended s hs t (.inr ht)⟩
      · exact List.pairwise_of_forall_mem_list fun s hs t ht => hended s hs t (.inl ht)
      · refine List.pairwise_of_forall_mem_list fun s _ t ht _ _ hb => ?_
        rw [beginOnly_unended ht] at hb
        cases hb
    refine ((Segment.pairwise_sort hends).sublist List.filter_sublist).imp_of_mem ?_
    intro s t hs _ hst hrows
    exact hst hrows (hmem s hs).2
  · intro s hs t ht hrows hb hplain
    have hended := mem_ended_of_beginOnly (hmem s hs).1 hb
    obtain ⟨-, hstop⟩ := Prod.mk.inj hrows
    rcases List.mem_append.1 ((build_perm lines).mem_iff.1 (hmem t ht).1) with hended' | hunended
    · rw [beginOnly_ended hended' (hmem t ht).2, ← hstop, ← beginOnly_ended hended (hmem s hs).2, hb] at hplain
      cases hplain
    · exact stop_unended hunended
  · exact fun s hs t ht => hideable_nested (hmem s hs).1 (hmem t ht).1 (hmem s hs).2 (hmem t ht).2

end Layout

end Linewise
