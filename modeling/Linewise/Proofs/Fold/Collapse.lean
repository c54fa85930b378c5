/-
What collapsing a segment makes of the stretches of a layout.

Once the lines of a segment are hidden behind its first one, that line opens and closes what all of them did, in both
contexts, and is read in its own context; before, each of the lines was read in the context it is in. Both are sweeps over
the same lines above and below (`Block`), so all that matters is which blocks are open below the segment:
`build_eq_kept_iff` says that the other segments stay as they are (`Layout.keptStretches`) exactly if these are the same,
or if nothing follows and as many blocks of the first line are open; `sameOpen_of_context` that they are the same if no line
of the segment is in the other context, but for lines without tokens.
-/
import Linewise.Proofs.Fold.Blocks

namespace Linewise

/-- the lines at which a segment begins and ends -/
def Segment.lines (s : Segment) : LineId × LineId := (s.start.line, s.stop.line)

/-- the mark of a line under its id -/
def FoldLine.idMark (line : FoldLine) : Mark LineId :=
  ⟨line.id, line.tally.pair line.ignored, line.ignored, line.collapsed⟩

theorem map_fst_marksFrom (row : Nat) (lines : List FoldLine) :
    (marksFrom row lines).map (Mark.map Prod.fst) = lines.map FoldLine.idMark := by
  induction lines generalizing row with
  | nil => rfl
  | cons line lines ih =>
    rw [marksFrom, List.map_cons, ih, List.map_cons]
    rfl

namespace Layout

/-- the blocks that are open below the first `count` lines, innermost first: their lines, and the contexts of these -/
def openAfter (lines : List FoldLine) (count : Nat) : List (LineId × Bool) :=
  (state (lines.take count)).stack.map fun block => (block.marker.line, block.flags.contains .ignored)

/-- where a line went: to itself if it is visible, else to the line `first` -/
def home (visible : List LineId) (first id : LineId) : LineId := if id ∈ visible then id else first

/-- the stretches that collapsing a segment should leave: its first line alone, and those that do not lie in the segment
or were open at the last line, with ends on hidden lines moved to the first line of the segment -/
def keptStretches (lines : List FoldLine) (segment : Segment) (visible : List LineId) : Multiset (LineId × LineId) :=
  (segment.start.line, segment.start.line) ::ₘ
    (((ended lines).filter (fun t => !segment.contains t) ++ unended lines).map fun t =>
      (home visible segment.start.line t.start.line, home visible segment.start.line t.stop.line) : List _)

/-! ## Layouts under ids -/

theorem map_fst_sweep (lines : List FoldLine) :
    (sweep lines).map Prod.fst = Sweep.run {} (lines.map FoldLine.idMark) := by
  rw [sweep, Sweep.map_run, map_fst_marksFrom]
  rfl

theorem openAfter_eq (lines : List FoldLine) (count : Nat) :
    openAfter lines count = (Sweep.run {} ((lines.take count).map FoldLine.idMark)).stack := by
  rw [← map_fst_sweep, ← sweep_state]
  simp only [openAfter, Sweep.map, FoldState.sweep, List.map_map]
  rfl

theorem lines_build {lines : List FoldLine} {front : List (Mark LineId)} {last : Mark LineId}
    (h : lines.map FoldLine.idMark = front ++ [last]) :
    ((build lines).segments.map Segment.lines : Multiset _) =
      (Sweep.run {} (lines.map FoldLine.idMark)).stretches last.label := by
  obtain ⟨before, after, rfl, rfl, hlast⟩ := List.map_eq_append_iff.1 h
  obtain ⟨line, rfl, rfl⟩ := List.map_eq_singleton_iff.1 hlast
  have hlines : (build (before ++ [line])).segments.map Segment.lines =
      ((build (before ++ [line])).segments.map Segment.ends).map (Prod.map Prod.fst Prod.fst) := by
    rw [List.map_map]
    rfl
  rw [hlines, ← Multiset.map_coe, ends_build, Sweep.stretches_map, map_fst_sweep]
  rfl

/-! ## Segments that ended -/

theorem state_append (front : List FoldLine) (line : FoldLine) :
    state (front ++ [line]) = (state front).step line := by
  rw [state, List.foldl_append]
  rfl

theorem state_row (lines : List FoldLine) : (state lines).row = lines.length := by
  rw [state, FoldState.foldl_row, Nat.zero_add]

/-- a segment that ended was closed by a line, or is a collapsed line alone -/
theorem mem_ended {lines : List FoldLine} {segment : Segment} (h : segment ∈ ended lines) :
    ∃ front line below, lines = front ++ line :: below ∧
      (segment ∈ (state front).selfOf line ∨ segment ∈ (state front).closedBy line) := by
  induction lines using List.reverseRecOn with
  | nil => cases h
  | append_singleton lines line ih =>
    rw [ended, state_append, FoldState.step_segments, List.mem_append, List.mem_append, List.mem_reverse] at h
    rcases h with h | h
    · exact ⟨lines, line, [], rfl, h⟩
    · obtain ⟨front, other, below, rfl, hcase⟩ := ih h
      exact ⟨front, other, below ++ [line], by simp, hcase⟩

/-- an open block is one of a line passed -/
theorem mem_stack {lines : List FoldLine} {block : (LineId × Nat) × Bool} (h : block ∈ (sweep lines).stack) :
    ∃ above line below, lines = above ++ line :: below ∧ block.1 = (line.id, above.length) := by
  obtain ⟨opened, count, inner, outer, hover⟩ := Sweep.run_over [] (marksFrom 0 lines)
  rw [show (sweep lines).stack = _ from hover.stack, List.drop_nil, List.append_nil] at h
  obtain ⟨m, hm, hlabel⟩ := List.mem_map.1 (hover.opened_mem block h)
  obtain ⟨i, line, hget, rfl⟩ := mem_marksFrom hm
  obtain ⟨hlt, rfl⟩ := List.getElem?_eq_some_iff.1 hget
  refine ⟨lines.take i, lines[i], lines.drop (i + 1), by simp, ?_⟩
  rw [← hlabel, List.length_take, Nat.min_eq_left hlt.le]
  simp [FoldLine.mark]

theorem contains_union (flags other : SegmentFlags) : (flags.union other).contains other = true := by
  simp only [SegmentFlags.union, SegmentFlags.contains, beq_iff_eq]
  apply UInt32.toBitVec_inj.1
  ext i
  simp only [UInt32.toBitVec_and, UInt32.toBitVec_or, BitVec.getElem_and, BitVec.getElem_or]
  cases flags.bits.toBitVec[i] <;> simp

/-- the lines of a segment of more than one line, of which the last one closes a block of the first one and opens none -/
structure Block (lines : List FoldLine) (segment : Segment) (above : List FoldLine) (first : FoldLine)
    (hidden : List FoldLine) (last : FoldLine) (below : List FoldLine) : Prop where
  lines : lines = above ++ first :: (hidden ++ last :: below)
  start : segment.start.place = (first.id, above.length)
  stop : segment.stop.place = (last.id, above.length + 1 + hidden.length)
  opened : (last.tally.pair last.ignored).opened = 0
  closed : ∃ context, ((first.id, above.length), context) ∈ (sweep (above ++ first :: hidden)).stack.take
    (Sweep.closes (sweep (above ++ first :: hidden)).stack (last.mark (above.length + 1 + hidden.length)))

/-- **A segment of more than one line that a line closed which opens nothing** is such a block. -/
theorem exists_block {lines : List FoldLine} {segment : Segment} (h : segment ∈ ended lines)
    (hrows : segment.start.row < segment.stop.row) (hb : segment.has .beginOnly = false) :
    ∃ above first hidden last below, Block lines segment above first hidden last below := by
  obtain ⟨front, last, below, rfl, hself | hclosed⟩ := mem_ended h
  · -- a line alone has one row
    unfold FoldState.selfOf at hself
    split_ifs at hself
    · rw [List.mem_singleton.1 hself] at hrows
      exact absurd hrows (Nat.lt_irrefl _)
    · cases hself
  · obtain ⟨block, hblock, rfl⟩ := List.mem_map.1 hclosed
    have hentry : block.entry ∈ (sweep front).stack.take
        (Sweep.closes (sweep front).stack (last.mark front.length)) := by
      rw [← sweep_state, ← state_row front]
      rw [FoldState.sweep, ← List.map_take]
      exact List.mem_map_of_mem hblock
    obtain ⟨above, first, hidden, rfl, hplace⟩ := mem_stack (List.mem_of_mem_take hentry)
    have hlen : (above ++ first :: hidden).length = above.length + 1 + hidden.length := by
      simp only [List.length_append, List.length_cons]
      omega
    rw [hlen] at hentry
    refine ⟨above, first, hidden, last, below, by simp, hplace, ?_, ?_, block.flags.contains .ignored, ?_⟩
    · rw [← hlen, ← state_row]
      rfl
    · by_contra hne
      have hopens : decide (0 < (last.tally.pair last.ignored).opened) = true := by
        simpa using Nat.pos_of_ne_zero hne
      rw [Segment.has, hopens, SegmentFlags.when, if_pos rfl, contains_union] at hb
      cases hb
    · rw [← hplace]
      exact hentry

/-! ## Lines collapsed -/

section Collapsed

variable {above hidden below : List FoldLine} {first last : FoldLine}

/-- what the first line of a segment opens and closes once the others are hidden behind it -/
def gathered (first : FoldLine) (others : List FoldLine) : Pair :=
  (((first :: others).map FoldLine.tally).sum).pair first.ignored

/-- the marks of the lines once those of a segment are hidden behind the first one -/
def collapsedMarks (above : List FoldLine) (first : FoldLine) (others below : List FoldLine) : List (Mark LineId) :=
  above.map FoldLine.idMark ++ ⟨first.id, gathered first others, first.ignored, true⟩ :: below.map FoldLine.idMark

/-- the blocks open above a line -/
def base (above : List FoldLine) : List (LineId × Bool) := (Sweep.run {} (above.map FoldLine.idMark)).stack

theorem base_eq (above : List FoldLine) : base above = (sweep above).stack.map (Prod.map Prod.fst id) := by
  rw [base, ← map_fst_sweep]
  rfl

/-- the last line once a segment is collapsed -/
def lastId (first : FoldLine) (below : List FoldLine) : LineId := ((below.map FoldLine.id).getLast?).getD first.id

/-- the lines that stay visible when a segment is collapsed -/
def visible (above : List FoldLine) (first : FoldLine) (below : List FoldLine) : List LineId :=
  above.map FoldLine.id ++ first.id :: below.map FoldLine.id

/-- the stretches of the layout with the lines of the segment hidden -/
theorem lines_build_collapsed {lines others : List FoldLine}
    (h : lines.map FoldLine.idMark = collapsedMarks above first others below) :
    ((build lines).segments.map Segment.lines : Multiset _) =
      (Sweep.run {} (above.map FoldLine.idMark)).closed + {(first.id, first.id)} +
        Sweep.through (base above) first.id first.ignored (below.map FoldLine.idMark) (lastId first below)
          (gathered first others).opened
          (min (gathered first others).closed (reach first.ignored (base above))) := by
  have hlast : ∃ front last, lines.map FoldLine.idMark = front ++ [last] ∧ last.label = lastId first below := by
    rcases List.eq_nil_or_concat below with rfl | ⟨rest, line, rfl⟩
    · exact ⟨above.map FoldLine.idMark, _, h, rfl⟩
    · refine ⟨collapsedMarks above first others rest, line.idMark, ?_, by simp [lastId, FoldLine.idMark]⟩
      rw [h]
      simp [collapsedMarks]
  obtain ⟨front, last, hfront, hlabel⟩ := hlast
  rw [lines_build hfront, h, hlabel, collapsedMarks, Sweep.run_append, Sweep.run_cons, Sweep.stretches_run,
    Sweep.through]
  simp only [Sweep.step, Sweep.closes, Mark.alone, base, if_true]
  abel

/-- the labels of lines from a row on: their ids and rows -/
theorem mem_labels {row : Nat} {lines : List FoldLine} {x : LineId × Nat}
    (h : x ∈ (marksFrom row lines).map (·.label)) :
    row ≤ x.2 ∧ x.2 < row + lines.length ∧ x.1 ∈ lines.map FoldLine.id := by
  obtain ⟨m, hm, rfl⟩ := List.mem_map.1 h
  obtain ⟨i, line, hget, rfl⟩ := mem_marksFrom hm
  obtain ⟨hlt, rfl⟩ := List.getElem?_eq_some_iff.1 hget
  exact ⟨Nat.le_add_right _ _, Nat.add_lt_add_left hlt _, List.mem_map_of_mem (List.getElem_mem hlt)⟩

/-- the stretches that collapsing should leave, read off the sweep -/
theorem keptStretches_sweep (front : List FoldLine) (line : FoldLine) (segment : Segment) (visible : List LineId) :
    keptStretches (front ++ [line]) segment visible =
      (segment.start.line, segment.start.line) ::ₘ
        (((sweep (front ++ [line])).closed.filter fun p =>
            ¬ (segment.start.row ≤ p.1.2 ∧ p.2.2 ≤ segment.stop.row)) +
          ((sweep (front ++ [line])).stack.map fun block => (block.1, (line.id, front.length)) : List _)).map
        (Prod.map (fun x => home visible segment.start.line x.1) fun x => home visible segment.start.line x.1) := by
  have hmap : ∀ segments : List Segment, (segments.map fun t =>
      (home visible segment.start.line t.start.line, home visible segment.start.line t.stop.line)) =
        (segments.map Segment.ends).map
          (Prod.map (fun x => home visible segment.start.line x.1) fun x => home visible segment.start.line x.1) := by
    intro segments
    rw [List.map_map]
    rfl
  have hfilter : ((ended (front ++ [line])).filter fun t => !segment.contains t).map Segment.ends =
      ((ended (front ++ [line])).map Segment.ends).filter fun p =>
        ¬ (segment.start.row ≤ p.1.2 ∧ p.2.2 ≤ segment.stop.row) := by
    rw [List.filter_map]
    congr 2
    funext t
    simp only [Function.comp, decide_not, Bool.decide_and]
    rfl
  rw [keptStretches, hmap, List.map_append, hfilter, ends_unended, ← Multiset.map_coe, ← Multiset.coe_add,
    ← Multiset.filter_coe, ends_ended]

/-- the marks of the lines of a segment -/
def blockMarks (row : Nat) (first : FoldLine) (hidden : List FoldLine) (last : FoldLine) : List (Mark (LineId × Nat)) :=
  first.mark row :: (marksFrom (row + 1) hidden ++ [last.mark (row + 1 + hidden.length)])

theorem marksFrom_split (above : List FoldLine) (first : FoldLine) (hidden : List FoldLine) (last : FoldLine)
    (below : List FoldLine) :
    marksFrom 0 (above ++ first :: (hidden ++ last :: below)) =
      marksFrom 0 above ++ (blockMarks above.length first hidden last ++
        marksFrom (above.length + 1 + hidden.length + 1) below) := by
  rw [marksFrom_append, marksFrom, marksFrom_append, marksFrom]
  simp [blockMarks]

theorem mem_blockMarks {row : Nat} {x : LineId × Nat} (h : x ∈ (blockMarks row first hidden last).map (·.label)) :
    row ≤ x.2 ∧ x.2 ≤ row + 1 + hidden.length ∧ (x.1 = first.id ∨ x.1 ∈ (hidden ++ [last]).map FoldLine.id) := by
  rw [blockMarks, List.map_cons, List.mem_cons, List.map_append, List.mem_append, List.map_singleton,
    List.mem_singleton] at h
  rcases h with rfl | h | rfl
  · exact ⟨Nat.le_refl _, by simp [FoldLine.mark]; omega, .inl rfl⟩
  · obtain ⟨hle, hlt, hid⟩ := mem_labels h
    exact ⟨by omega, by omega, .inr (by rw [List.map_append]; exact List.mem_append_left _ hid)⟩
  · exact ⟨by simp [FoldLine.mark]; omega, Nat.le_refl _, .inr (by simp [FoldLine.mark])⟩

theorem stack_row {above : List FoldLine} {block : (LineId × Nat) × Bool} (h : block ∈ (sweep above).stack) :
    block.1.2 < above.length ∧ block.1.1 ∈ above.map FoldLine.id := by
  obtain ⟨front, line, rest, rfl, hplace⟩ := mem_stack h
  rw [hplace]
  exact ⟨by simp, by simp⟩

/-- the blocks open at the end of a segment, of the lines before it and of the first one -/
theorem exists_over {context : Bool} (hopened : (last.tally.pair last.ignored).opened = 0)
    (hclosed : ((first.id, above.length), context) ∈ (sweep (above ++ first :: hidden)).stack.take
      (Sweep.closes (sweep (above ++ first :: hidden)).stack (last.mark (above.length + 1 + hidden.length)))) :
    ∃ own count inner outer, Sweep.Over (sweep above).stack (blockMarks above.length first hidden last)
      (List.replicate own ((first.id, above.length), first.ignored)) count inner outer
      (Sweep.run ⟨(sweep above).stack, 0⟩ (blockMarks above.length first hidden last)) := by
  have hstack : (sweep (above ++ first :: hidden)).stack =
      (Sweep.run ⟨(sweep above).stack, 0⟩ (first.mark above.length :: marksFrom (above.length + 1) hidden)).stack := by
    rw [← (Sweep.run_closed _ (sweep above).closed _).1, sweep, marksFrom_append, Sweep.run_append, marksFrom,
      Nat.zero_add]
    rfl
  rw [hstack] at hclosed
  unfold blockMarks
  refine Sweep.run_block ?_ ?_ hopened hclosed
  · intro block hb hlabel
    have h1 := (stack_row hb).1
    have h2 := (mem_blockMarks hlabel).1
    omega
  · intro hlabel
    have h := (mem_labels hlabel).1
    simp only [FoldLine.mark] at h
    omega

/-! ### Where lines went -/

/-- where the line at a place is found once the segment is collapsed -/
def placeHome (above : List FoldLine) (first : FoldLine) (below : List FoldLine) (x : LineId × Nat) : LineId :=
  home (visible above first below) first.id x.1

theorem placeHome_above {x : LineId × Nat} (hx : x.1 ∈ above.map FoldLine.id) : placeHome above first below x = x.1 :=
  if_pos (List.mem_append_left _ hx)

theorem placeHome_below {x : LineId × Nat} (hx : x.1 ∈ below.map FoldLine.id) : placeHome above first below x = x.1 :=
  if_pos (List.mem_append_right _ (List.mem_cons_of_mem _ hx))

theorem placeHome_first (row : Nat) : placeHome above first below (first.id, row) = first.id :=
  if_pos (List.mem_append_right _ List.mem_cons_self)

/-- the blocks open above the segment are where they were -/
theorem map_placeHome_stack (count : Nat) :
    ((sweep above).stack.drop count).map (Prod.map (placeHome above first below) id) = (base above).drop count := by
  rw [base_eq, ← List.map_drop]
  refine List.map_congr_left fun block hb => ?_
  rw [Prod.map, placeHome_above (stack_row (List.mem_of_mem_drop hb)).2]
  rfl

/-- so are the stretches that ended there -/
theorem map_placeHome_closed :
    (sweep above).closed.map (Prod.map (placeHome above first below) (placeHome above first below)) =
      (Sweep.run {} (above.map FoldLine.idMark)).closed := by
  rw [← map_fst_sweep]
  refine Multiset.map_congr rfl fun p hp => ?_
  obtain ⟨h1, h2⟩ := Sweep.mem_closed hp
  exact Prod.ext (placeHome_above (mem_labels h1).2.2) (placeHome_above (mem_labels h2).2.2)

theorem map_placeHome_below (row : Nat) :
    (marksFrom row below).map (Mark.map (placeHome above first below)) = below.map FoldLine.idMark := by
  rw [← map_fst_marksFrom row]
  refine List.map_congr_left fun m hm => ?_
  rw [Mark.map, placeHome_below (mem_labels (List.mem_map_of_mem hm)).2.2]
  rfl

section Distinct

variable (hids : ((above ++ first :: (hidden ++ last :: below)).map FoldLine.id).Nodup)
include hids

/-- a hidden line is found at the first line of the segment, for no line stands twice -/
theorem placeHome_hidden {x : LineId × Nat} (h : x.1 ∈ (hidden ++ [last]).map FoldLine.id) :
    placeHome above first below x = first.id := by
  have hperm : (above ++ first :: (hidden ++ last :: below)).Perm ((hidden ++ [last]) ++ (above ++ first :: below)) := by
    have hcut : (above ++ first :: (hidden ++ last :: below)) = (above ++ [first]) ++ (hidden ++ [last]) ++ below := by
      simp
    rw [hcut]
    refine (List.perm_append_comm.append_right below).trans ?_
    simp
  have hn := ((hperm.map FoldLine.id).nodup_iff).1 hids
  rw [List.map_append, List.nodup_append] at hn
  refine if_neg fun hv => hn.2.2 x.1 h x.1 ?_ rfl
  rw [List.map_append, List.map_cons]
  exact hv

/-- so are all lines of the segment -/
theorem placeHome_block {x : LineId × Nat} (hx : x ∈ (blockMarks above.length first hidden last).map (·.label)) :
    placeHome above first below x = first.id := by
  rcases (mem_blockMarks hx).2.2 with heq | hhidden
  · rw [placeHome, heq]
    exact placeHome_first 0
  · exact placeHome_hidden hids hhidden

theorem exists_last :
    ∃ front line, above ++ first :: (hidden ++ last :: below) = front ++ [line] ∧
      placeHome above first below (line.id, front.length) = lastId first below := by
  rcases List.eq_nil_or_concat below with rfl | ⟨rest, line, rfl⟩
  · exact ⟨above ++ first :: hidden, last, by simp, placeHome_hidden hids (by simp)⟩
  · refine ⟨above ++ first :: (hidden ++ last :: rest), line, by simp, ?_⟩
    rw [placeHome_below (by simp)]
    simp [lastId]

/-- no other line is the first line of the segment -/
theorem ne_first {line : FoldLine} (h : line ∈ above ∨ line ∈ below) : line.id ≠ first.id := by
  rw [List.map_append, List.map_cons, List.nodup_append, List.nodup_cons] at hids
  rcases h with h | h
  · exact hids.2.2 _ (List.mem_map_of_mem h) _ List.mem_cons_self
  · intro heq
    exact hids.2.1.1 (heq ▸ List.mem_map_of_mem (by simp [h]))

theorem base_ne : ∀ block ∈ base above, block.1 ≠ first.id := by
  intro block hb
  rw [base_eq] at hb
  obtain ⟨old, hold, rfl⟩ := List.mem_map.1 hb
  obtain ⟨line, hline, hid⟩ := List.mem_map.1 (stack_row hold).2
  rw [Prod.map, ← hid]
  exact ne_first hids (.inl hline)

theorem below_ne : ∀ m ∈ below.map FoldLine.idMark, m.label ≠ first.id := by
  intro m hm
  obtain ⟨line, hline, rfl⟩ := List.mem_map.1 hm
  exact ne_first hids (.inr hline)

theorem lastId_ne (h : below.map FoldLine.idMark ≠ []) : lastId first below ≠ first.id := by
  rcases List.eq_nil_or_concat below with rfl | ⟨rest, line, rfl⟩
  · exact absurd rfl h
  · have hlast : lastId first (rest.concat line) = line.id := by simp [lastId]
    rw [hlast]
    exact ne_first hids (.inr (by simp))

end Distinct

theorem lastId_of_nil (h : below.map FoldLine.idMark = []) : lastId first below = first.id := by
  rw [List.map_eq_nil_iff.1 h]
  rfl

/-! ### The segment as one line -/

/-- the sweep over all lines, cut at both ends of a segment -/
theorem sweep_split (above : List FoldLine) (first : FoldLine) (hidden : List FoldLine) (last : FoldLine)
    (below : List FoldLine) :
    let block := Sweep.run ⟨(sweep above).stack, 0⟩ (blockMarks above.length first hidden last)
    let rest := Sweep.run ⟨block.stack, 0⟩ (marksFrom (above.length + 1 + hidden.length + 1) below)
    sweep (above ++ first :: (hidden ++ last :: below)) =
      ⟨rest.stack, (sweep above).closed + block.closed + rest.closed⟩ := by
  intro block rest
  have hblock := Sweep.run_closed (sweep above).stack (sweep above).closed (blockMarks above.length first hidden last)
  have hrest := Sweep.run_closed block.stack ((sweep above).closed + block.closed)
    (marksFrom (above.length + 1 + hidden.length + 1) below)
  have hrun : Sweep.run (sweep above) (blockMarks above.length first hidden last) =
      ⟨block.stack, (sweep above).closed + block.closed⟩ := by
    rw [← hblock.1, ← hblock.2]
  rw [sweep, marksFrom_split, Sweep.run_append, Sweep.run_append, ← sweep, hrun, ← hrest.1, ← hrest.2]

section Over

variable {own count : Nat} {inner outer : Multiset ((LineId × Nat) × (LineId × Nat))}
  (h : Sweep.Over (sweep above).stack (blockMarks above.length first hidden last)
    (List.replicate own ((first.id, above.length), first.ignored)) count inner outer
    (Sweep.run ⟨(sweep above).stack, 0⟩ (blockMarks above.length first hidden last)))
include h

/-- no stretch that ended is lost but for those within the segment -/
theorem filter_closed :
    ((sweep (above ++ first :: (hidden ++ last :: below))).closed.filter fun p =>
      ¬ (above.length ≤ p.1.2 ∧ p.2.2 ≤ above.length + 1 + hidden.length)) =
      (sweep above).closed + outer + (Sweep.run
        ⟨(Sweep.run ⟨(sweep above).stack, 0⟩ (blockMarks above.length first hidden last)).stack, 0⟩
        (marksFrom (above.length + 1 + hidden.length + 1) below)).closed := by
  have habove : ∀ p ∈ (sweep above).closed, ¬ (above.length ≤ p.1.2 ∧ p.2.2 ≤ above.length + 1 + hidden.length) := by
    intro p hp
    have hlt := (mem_labels (Sweep.mem_closed hp).1).2.1
    omega
  have hinner : ∀ p ∈ inner, ¬ ¬ (above.length ≤ p.1.2 ∧ p.2.2 ≤ above.length + 1 + hidden.length) := by
    intro p hp
    have hstart := (mem_blockMarks (h.inner_mem p hp).1).1
    have hstop := (mem_blockMarks (h.inner_mem p hp).2).2.1
    omega
  have houter : ∀ p ∈ outer, ¬ (above.length ≤ p.1.2 ∧ p.2.2 ≤ above.length + 1 + hidden.length) := by
    intro p hp
    obtain ⟨block, hb, heq⟩ := h.outer_start hp
    have hlt := (stack_row hb).1
    rw [heq] at hlt
    omega
  have hbelow : ∀ stack, ∀ p ∈ (Sweep.run ⟨stack, 0⟩ (marksFrom (above.length + 1 + hidden.length + 1) below)).closed,
      ¬ (above.length ≤ p.1.2 ∧ p.2.2 ≤ above.length + 1 + hidden.length) := by
    intro stack p hp
    have hle := (mem_labels (Sweep.end_of_mem_closed hp)).1
    omega
  rw [sweep_split]
  simp only [h.closed, Multiset.filter_add]
  rw [Multiset.filter_eq_self.2 habove, Multiset.filter_eq_nil.2 hinner, Multiset.filter_eq_self.2 houter,
    Multiset.filter_eq_self.2 (hbelow _), zero_add]

theorem map_placeHome_block :
    (Sweep.run ⟨(sweep above).stack, 0⟩ (blockMarks above.length first hidden last)).stack.map
      (Prod.map (placeHome above first below) id) =
      List.replicate own (first.id, first.ignored) ++ (base above).drop count := by
  rw [h.stack, List.map_append, List.map_replicate, Prod.map_apply, placeHome_first, map_placeHome_stack]
  rfl

theorem map_placeHome_outer (hids : ((above ++ first :: (hidden ++ last :: below)).map FoldLine.id).Nodup) :
    outer.map (Prod.map (placeHome above first below) (placeHome above first below)) =
      (((base above).take count).map fun block => (block.1, first.id) : List _) := by
  calc outer.map (Prod.map (placeHome above first below) (placeHome above first below))
      _ = (outer.map (·.1)).map fun x => (x.1, first.id) := by
        rw [Multiset.map_map]
        refine Multiset.map_congr rfl fun p hp => ?_
        obtain ⟨block, hb, heq⟩ := h.outer_start hp
        exact Prod.ext (placeHome_above (heq ▸ (stack_row hb).2)) (placeHome_block hids (h.outer_mem p hp))
      _ = (((base above).take count).map fun block => (block.1, first.id) : List _) := by
        rw [h.outer_starts, Multiset.map_coe, base_eq, ← List.map_take, List.map_map, List.map_map]
        rfl

/-- the blocks open below the segment -/
theorem openAfter_segment :
    openAfter (above ++ first :: (hidden ++ last :: below)) (above.length + 1 + hidden.length + 1) =
      List.replicate own (first.id, first.ignored) ++ (base above).drop count := by
  have htake : (above ++ first :: (hidden ++ last :: below)).take (above.length + 1 + hidden.length + 1) =
      above ++ first :: (hidden ++ last :: []) := by
    have hcut : above ++ first :: (hidden ++ last :: below) = (above ++ first :: (hidden ++ last :: [])) ++ below := by
      simp
    rw [hcut]
    refine List.take_left' ?_
    simp only [List.length_append, List.length_cons, List.length_nil]
    omega
  rw [openAfter_eq, htake, ← map_fst_sweep, sweep_split, base_eq, marksFrom, Sweep.run_nil, Sweep.map]
  simp only [h.stack, List.map_append, List.map_replicate, List.map_drop]
  rfl

/-- **The stretches that collapsing a segment should leave**, as a sweep that passes the segment as one line: one that
closes and leaves open what its lines do. -/
theorem keptStretches_eq (hids : ((above ++ first :: (hidden ++ last :: below)).map FoldLine.id).Nodup)
    {segment : Segment} (hstart : segment.start.place = (first.id, above.length))
    (hstop : segment.stop.place = (last.id, above.length + 1 + hidden.length)) :
    keptStretches (above ++ first :: (hidden ++ last :: below)) segment (visible above first below) =
      (Sweep.run {} (above.map FoldLine.idMark)).closed + {(first.id, first.id)} +
        Sweep.through (base above) first.id first.ignored (below.map FoldLine.idMark) (lastId first below) own count := by
  have hline : segment.start.line = first.id := congrArg Prod.fst hstart
  have hfrom : segment.start.row = above.length := congrArg Prod.snd hstart
  have hto : segment.stop.row = above.length + 1 + hidden.length := congrArg Prod.snd hstop
  obtain ⟨front, line, hlines, hlast⟩ := exists_last hids
  have hrest : ((Sweep.run ⟨(Sweep.run ⟨(sweep above).stack, 0⟩ (blockMarks above.length first hidden last)).stack, 0⟩
      (marksFrom (above.length + 1 + hidden.length + 1) below)).stretches (line.id, front.length)).map
        (Prod.map (placeHome above first below) (placeHome above first below)) =
      (Sweep.run ⟨List.replicate own (first.id, first.ignored) ++ (base above).drop count, 0⟩
        (below.map FoldLine.idMark)).stretches (lastId first below) := by
    rw [Sweep.stretches_map, Sweep.map_run, map_placeHome_below, hlast, Sweep.map, map_placeHome_block h]
    rfl
  have hhome : (fun x : LineId × Nat => home (visible above first below) first.id x.1) = placeHome above first below := rfl
  rw [hlines, keptStretches_sweep, hline, hfrom, hto, ← hlines, hhome, filter_closed h, sweep_split, add_assoc,
    ← Sweep.stretches, Multiset.map_add, Multiset.map_add, map_placeHome_closed, map_placeHome_outer h hids, hrest,
    Sweep.through, ← Multiset.singleton_add]
  abel

end Over

/-- the blocks open below the line that the segment became -/
theorem openAfter_collapsed {lines others : List FoldLine}
    (h : lines.map FoldLine.idMark = collapsedMarks above first others below) :
    openAfter lines (above.length + 1) = Sweep.afterLine (base above) first.id first.ignored (gathered first others) := by
  have htake : (collapsedMarks above first others below).take (above.length + 1) =
      above.map FoldLine.idMark ++ [⟨first.id, gathered first others, first.ignored, true⟩] := by
    rw [collapsedMarks, List.append_cons]
    exact List.take_left' (by simp)
  rw [openAfter_eq, List.map_take, h, htake, Sweep.run_append, Sweep.run_cons, Sweep.run_nil]
  rfl

theorem map_id_collapsed {lines others : List FoldLine}
    (h : lines.map FoldLine.idMark = collapsedMarks above first others below) :
    lines.map FoldLine.id = visible above first below := by
  have hlabels := congrArg (List.map Mark.label) h
  rw [List.map_map, collapsedMarks, List.map_append, List.map_cons, List.map_map, List.map_map] at hlabels
  exact hlabels

/-- what lines of one context gather is what they open and close each in its own -/
theorem gathered_eq {others : List FoldLine}
    (h : ∀ line ∈ first :: others, line.ignored = first.ignored ∨ line.tally = 0) :
    gathered first others = ((first :: others).map fun line => line.tally.pair line.ignored).sum := by
  rw [gathered, Tally.pair_sum, List.map_map]
  congr 1
  refine List.map_congr_left fun line hline => ?_
  rcases h line hline with hi | hz
  · rw [Function.comp, hi]
  · rw [Function.comp, hz, Tally.pair_zero, Tally.pair_zero]

theorem map_pair_blockMarks (row : Nat) :
    (blockMarks row first hidden last).map (·.pair) =
      (first :: (hidden ++ [last])).map fun line => line.tally.pair line.ignored := by
  have hpair : ∀ (row : Nat) (lines : List FoldLine),
      (marksFrom row lines).map (·.pair) = lines.map fun line => line.tally.pair line.ignored := by
    intro row lines
    induction lines generalizing row with
    | nil => rfl
    | cons line lines ih =>
      rw [marksFrom, List.map_cons, ih]
      rfl
  rw [blockMarks, List.map_cons, List.map_append, hpair]
  simp [FoldLine.mark]

theorem mem_blockMarks_line {row : Nat} {m : Mark (LineId × Nat)} (h : m ∈ blockMarks row first hidden last) :
    ∃ line ∈ first :: (hidden ++ [last]), m.ignored = line.ignored ∧ m.pair = line.tally.pair line.ignored := by
  rw [blockMarks, List.mem_cons, List.mem_append, List.mem_singleton] at h
  rcases h with rfl | h | rfl
  · exact ⟨first, List.mem_cons_self, rfl, rfl⟩
  · obtain ⟨i, line, hget, rfl⟩ := mem_marksFrom h
    exact ⟨line, List.mem_cons_of_mem _ (List.mem_append_left _ (List.mem_of_getElem? hget)), rfl, rfl⟩
  · exact ⟨last, by simp, rfl, rfl⟩

/-- **Lines of one context leave the same blocks open together as one by one.** -/
theorem left_open_of_context (hids : ((above ++ first :: (hidden ++ last :: below)).map FoldLine.id).Nodup)
    {own count : Nat} {inner outer : Multiset ((LineId × Nat) × (LineId × Nat))}
    (h : Sweep.Over (sweep above).stack (blockMarks above.length first hidden last)
      (List.replicate own ((first.id, above.length), first.ignored)) count inner outer
      (Sweep.run ⟨(sweep above).stack, 0⟩ (blockMarks above.length first hidden last)))
    (hcontext : ∀ line ∈ first :: (hidden ++ [last]), line.ignored = first.ignored ∨ line.tally = 0) :
    Sweep.afterLine (base above) first.id first.ignored (gathered first (hidden ++ [last])) =
      List.replicate own (first.id, first.ignored) ++ (base above).drop count := by
  set marks := (blockMarks above.length first hidden last).map (Mark.map (placeHome above first below)) with hmarks
  have hlabel : ∀ m ∈ marks, m.label = first.id := by
    intro m hm
    obtain ⟨old, hold, rfl⟩ := List.mem_map.1 hm
    exact placeHome_block hids (List.mem_map_of_mem hold)
  have hone : ∀ m ∈ marks, m.ignored = first.ignored ∨ m.pair = 0 := by
    intro m hm
    obtain ⟨old, hold, rfl⟩ := List.mem_map.1 hm
    obtain ⟨line, hline, hignored, hpair⟩ := mem_blockMarks_line hold
    rcases hcontext line hline with hi | hz
    · exact .inl (hignored.trans hi)
    · exact .inr (by rw [Mark.map, hpair, hz, Tally.pair_zero])
  have hsum : (marks.map (·.pair)).sum = gathered first (hidden ++ [last]) := by
    rw [gathered_eq hcontext, ← map_pair_blockMarks above.length, hmarks, List.map_map]
    rfl
  have hstart : (⟨(sweep above).stack, 0⟩ : Sweep (LineId × Nat)).map (placeHome above first below) =
      ⟨Sweep.afterLine (base above) first.id first.ignored 0, 0⟩ := by
    have hbase : (sweep above).stack.map (Prod.map (placeHome above first below) id) = base above :=
      map_placeHome_stack 0
    simp [Sweep.map, Sweep.afterLine, hbase, Pair.zero_def]
  have hstack : (Sweep.run ⟨(sweep above).stack, 0⟩ (blockMarks above.length first hidden last)).stack.map
      (Prod.map (placeHome above first below) id) = _ := map_placeHome_block h
  have hrun := congrArg Sweep.stack (Sweep.map_run (placeHome above first below) ⟨(sweep above).stack, 0⟩
    (blockMarks above.length first hidden last))
  rw [hstart, ← hmarks, Sweep.run_uniform (base above) hlabel hone, zero_add, hsum] at hrun
  exact hrun.symm.trans hstack

end Collapsed

/-! ## Segments collapsed -/

/-- the same blocks are open below a segment and below the line it became; where nothing follows, it is enough that as
many blocks of that line are -/
def SameOpen (lines collapsed : List FoldLine) (segment : Segment) : Prop :=
  openAfter collapsed (segment.start.row + 1) = openAfter lines (segment.stop.row + 1) ∨
    segment.stop.row + 1 = lines.length ∧
      (openAfter collapsed (segment.start.row + 1)).countP (·.1 = segment.start.line) =
        (openAfter lines (segment.stop.row + 1)).countP (·.1 = segment.start.line)

instance (lines collapsed : List FoldLine) (segment : Segment) : Decidable (SameOpen lines collapsed segment) :=
  inferInstanceAs (Decidable (_ ∨ _))

/-- the lines of a segment -/
def span (lines : List FoldLine) (segment : Segment) : List FoldLine :=
  (lines.drop segment.start.row).take (segment.stop.row + 1 - segment.start.row)

/-- the lines of a segment are in the context of its first one, but for lines without tokens -/
def OneContext (lines : List FoldLine) (segment : Segment) : Prop :=
  ∀ first ∈ (span lines segment).head?, ∀ line ∈ span lines segment, line.ignored = first.ignored ∨ line.tally = 0

instance (lines : List FoldLine) (segment : Segment) : Decidable (OneContext lines segment) :=
  inferInstanceAs (Decidable (∀ first ∈ (span lines segment).head?, _))

section Block

variable {lines collapsed above hidden below : List FoldLine} {segment : Segment} {first last : FoldLine}
  (hblock : Block lines segment above first hidden last below)
include hblock

theorem Block.span : span lines segment = first :: (hidden ++ [last]) := by
  obtain ⟨rfl, hstart, hstop, -, -⟩ := hblock
  have hfrom : segment.start.row = above.length := congrArg Prod.snd hstart
  have hto : segment.stop.row = above.length + 1 + hidden.length := congrArg Prod.snd hstop
  have hcut : first :: (hidden ++ last :: below) = (first :: (hidden ++ [last])) ++ below := by simp
  rw [Layout.span, hfrom, hto, List.drop_left, hcut]
  refine List.take_left' ?_
  simp only [List.length_cons, List.length_append, List.length_nil]
  omega

variable (hids : (lines.map FoldLine.id).Nodup)
  (hmarks : collapsed.map FoldLine.idMark = collapsedMarks above first (hidden ++ [last]) below)
include hids hmarks

/-- **When collapsing a segment leaves the other segments as they are**: exactly if it leaves the same blocks open. -/
theorem build_eq_kept_iff :
    ((build collapsed).segments.map Segment.lines : Multiset _) =
      keptStretches lines segment (collapsed.map FoldLine.id) ↔ SameOpen lines collapsed segment := by
  obtain ⟨rfl, hstart, hstop, hopened, context, hclosed⟩ := hblock
  obtain ⟨own, count, inner, outer, h⟩ := exists_over hopened hclosed
  have hline : segment.start.line = first.id := congrArg Prod.fst hstart
  have hfrom : segment.start.row = above.length := congrArg Prod.snd hstart
  have hto : segment.stop.row = above.length + 1 + hidden.length := congrArg Prod.snd hstop
  have hbase := base_ne hids
  have hcount : count ≤ (base above).length := by
    rw [base_eq, List.length_map]
    exact h.count_le
  have hmin := (Nat.min_le_right (gathered first (hidden ++ [last])).closed _).trans
    (reach_le_length first.ignored (base above))
  rw [map_id_collapsed hmarks, lines_build_collapsed hmarks, keptStretches_eq h hids hstart hstop, add_right_inj,
    Sweep.through_eq_iff hbase (below_ne hids) lastId_of_nil (lastId_ne hids) hmin hcount, SameOpen, hfrom, hto, hline,
    openAfter_collapsed hmarks, openAfter_segment h, Sweep.afterLine, Sweep.countP_own hbase, Sweep.countP_own hbase]
  refine or_congr_right (and_congr_left' ?_)
  rw [List.map_eq_nil_iff, ← List.length_eq_zero_iff]
  simp only [List.length_append, List.length_cons]
  omega

/-- no segment is disturbed by collapsing lines of one context -/
theorem sameOpen_of_context (h : OneContext lines segment) : SameOpen lines collapsed segment := by
  have hcontext : ∀ line ∈ first :: (hidden ++ [last]), line.ignored = first.ignored ∨ line.tally = 0 := by
    rw [OneContext, hblock.span] at h
    exact h first rfl
  obtain ⟨rfl, hstart, hstop, hopened, context, hclosed⟩ := hblock
  obtain ⟨own, count, inner, outer, h⟩ := exists_over hopened hclosed
  have hfrom : segment.start.row = above.length := congrArg Prod.snd hstart
  have hto : segment.stop.row = above.length + 1 + hidden.length := congrArg Prod.snd hstop
  left
  rw [hfrom, hto, openAfter_collapsed hmarks, openAfter_segment h, left_open_of_context hids h hcontext]

end Block

end Layout

end Linewise
