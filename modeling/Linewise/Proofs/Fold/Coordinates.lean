/-
Fold markers carry exact coordinates.

A marker is made while lines are visited: its row is counted, its offset comes with the line, and the row it would have if
nothing were hidden is read off a table that is still being filled. Each of these is compared with what the document says.
- The table (`HiddenRows`): it is filled from the top, so what it says of a row depends on the rows above only, and does not
  change any more once they are in (`Layout.above_state`).
- The markers: each was made at some line, from the state above that line (`Layout.segments_marked`).
- The lines: offsets and hidden lines add up as they do in the document (`Sheet.split_foldLines`).
- The document with nothing hidden: bringing lines back fills places that were held by no line, so every line stays at its
  place (`Effect.place_kept`).

`layout_coordinates` puts these together.
-/
import Mathlib.Data.List.TakeWhile
import Linewise.Proofs.Fold.Cache
import Linewise.Proofs.Fold.Collapse

namespace Linewise

/-! ## The table of hidden rows -/

namespace HiddenRows

variable {h : HiddenRows} {row bound : Nat}

theorem above_of_lt (hb : ∀ entry ∈ h.entries, entry.1 < row) : h.above row = h.total := by
  have hall : h.entries.takeWhile (fun entry => entry.1 < row) = h.entries := by
    rw [List.takeWhile_eq_self_iff]
    intro entry hentry
    exact decide_eq_true (hb entry hentry)
  rw [above, hall, total]

/-- a row added below the others counts for the rows below it, and for no other -/
theorem above_push (hb : ∀ entry ∈ h.entries, entry.1 < bound) (hidden : Nat) :
    (h.push bound hidden).above row = if bound < row then h.total + hidden else h.above row := by
  by_cases hlt : bound < row
  · have hall : ∀ entry ∈ (h.push bound hidden).entries, entry.1 < row := by
      intro entry hentry
      rcases List.mem_append.1 hentry with hold | hnew
      · exact (hb entry hold).trans hlt
      · rw [List.mem_singleton.1 hnew]
        exact hlt
    rw [if_pos hlt, above_of_lt hall]
    simp [total, push]
  · rw [if_neg hlt, above, above, push, List.takeWhile_append]
    split_ifs with hlen
    · have hwhole := List.takeWhile_prefix (fun entry : Nat × Nat => decide (entry.1 < row)) |>.eq_of_length hlen
      simp [hlt, hwhole]
    · rfl

end HiddenRows

/-- how many lines are hidden behind a line -/
def FoldLine.behind (line : FoldLine) : Nat := if line.collapsed then line.hidden else 0

/-- how many lines are hidden behind lines -/
def hiddenBehind (lines : List FoldLine) : Nat := (lines.map FoldLine.behind).sum

theorem hiddenBehind_append (above below : List FoldLine) :
    hiddenBehind (above ++ below) = hiddenBehind above + hiddenBehind below := by
  simp [hiddenBehind]

namespace Layout

variable {lines : List FoldLine}

theorem state_hidden (front : List FoldLine) (line : FoldLine) :
    (state (front ++ [line])).hidden =
      if line.collapsed then (state front).hidden.push front.length line.hidden else (state front).hidden := by
  rw [state_append, ← state_row front]
  rfl

theorem hidden_lt (lines : List FoldLine) : ∀ entry ∈ (state lines).hidden.entries, entry.1 < lines.length := by
  induction lines using List.reverseRecOn with
  | nil => exact fun _ h => absurd h List.not_mem_nil
  | append_singleton front line ih =>
    have hold : ∀ entry ∈ (state front).hidden.entries, entry.1 < (front ++ [line]).length := by
      intro entry hentry
      have hlt := ih entry hentry
      simp only [List.length_append, List.length_singleton]
      omega
    rw [state_hidden]
    split_ifs
    · intro entry hentry
      rcases List.mem_append.1 hentry with hentry | hnew
      · exact hold entry hentry
      · rw [List.mem_singleton.1 hnew]
        simp
    · exact hold

/-- **The table counts what is hidden behind the rows above a row.** -/
theorem above_state (lines : List FoldLine) (row : Nat) :
    (state lines).hidden.above row = hiddenBehind (lines.take row) := by
  induction lines using List.reverseRecOn generalizing row with
  | nil => simp [state, hiddenBehind, HiddenRows.above]
  | append_singleton front line ih =>
    have hall : (state front).hidden.total = hiddenBehind front := by
      rw [← HiddenRows.above_of_lt (hidden_lt front), ih, List.take_length]
    have habove : (state (front ++ [line])).hidden.above row =
        if front.length < row then hiddenBehind front + line.behind else (state front).hidden.above row := by
      rw [state_hidden, FoldLine.behind]
      by_cases hc : line.collapsed = true
      · rw [if_pos hc, if_pos hc, HiddenRows.above_push (hidden_lt front), hall]
      · rw [if_neg hc, if_neg hc, Nat.add_zero]
        split_ifs with hlt
        · rw [← hall]
          exact HiddenRows.above_of_lt fun entry hentry => (hidden_lt front entry hentry).trans hlt
        · rfl
    rw [habove]
    -- rows up to the new line's are told what they were told before it came
    split_ifs with hlt
    · rw [List.take_of_length_le (by simpa using Nat.succ_le_of_lt hlt), hiddenBehind_append]
      simp [hiddenBehind]
    · rw [ih, List.take_append_of_le_length (Nat.le_of_not_lt hlt)]

/-! ## Markers -/

/-- the marker was made where a line begins -/
def BeginsLine (lines : List FoldLine) (m : Marker) : Prop :=
  ∃ above line below, lines = above ++ line :: below ∧ m = (state above).startOf line

/-- the marker was made where a line ends -/
def EndsLine (lines : List FoldLine) (m : Marker) : Prop :=
  ∃ above line below, lines = above ++ line :: below ∧ m = (state above).stopOf line

theorem BeginsLine.append {m : Marker} (h : BeginsLine lines m) (line : FoldLine) : BeginsLine (lines ++ [line]) m := by
  obtain ⟨above, first, below, rfl, rfl⟩ := h
  exact ⟨above, first, below ++ [line], by simp, rfl⟩

theorem EndsLine.append {m : Marker} (h : EndsLine lines m) (line : FoldLine) : EndsLine (lines ++ [line]) m := by
  obtain ⟨above, first, below, rfl, rfl⟩ := h
  exact ⟨above, first, below ++ [line], by simp, rfl⟩

/-- every marker of a state of folding was made at one of the lines visited -/
structure Marked (lines : List FoldLine) (s : FoldState) : Prop where
  stack : ∀ block ∈ s.stack, BeginsLine lines block.marker
  segments : ∀ segment ∈ s.segments, BeginsLine lines segment.start ∧ EndsLine lines segment.stop
  lastEnd : ∀ m, s.lastEnd = some m → EndsLine lines m

theorem Marked.step {front : List FoldLine} (h : Marked front (state front)) (line : FoldLine) :
    Marked (front ++ [line]) ((state front).step line) := by
  have hstart : BeginsLine (front ++ [line]) ((state front).startOf line) := ⟨front, line, [], rfl, rfl⟩
  have hstop : EndsLine (front ++ [line]) ((state front).stopOf line) := ⟨front, line, [], rfl, rfl⟩
  refine ⟨?_, ?_, ?_⟩
  · intro block hblock
    rw [FoldState.step_stack] at hblock
    rcases List.mem_append.1 hblock with hopened | hkept
    · rw [List.eq_of_mem_replicate hopened]
      exact hstart
    · exact (h.stack block (List.mem_of_mem_drop hkept)).append line
  · intro segment hsegment
    rw [FoldState.step_segments, List.mem_append, List.mem_append, List.mem_reverse] at hsegment
    rcases hsegment with (hself | hclosed) | hold
    · unfold FoldState.selfOf at hself
      split_ifs at hself
      · rw [List.mem_singleton.1 hself]
        exact ⟨hstart, hstop⟩
      · cases hself
    · obtain ⟨block, hblock, rfl⟩ := List.mem_map.1 hclosed
      exact ⟨(h.stack block (List.mem_of_mem_take hblock)).append line, hstop⟩
    · obtain ⟨hbegins, hends⟩ := h.segments segment hold
      exact ⟨hbegins.append line, hends.append line⟩
  · intro m hm
    cases hm
    exact hstop

theorem state_marked (lines : List FoldLine) : Marked lines (state lines) := by
  induction lines using List.reverseRecOn with
  | nil => exact ⟨by simp [state], by simp [state], by simp [state]⟩
  | append_singleton front line ih =>
    rw [state_append]
    exact ih.step line

/-- **A segment begins where a line begins and ends where a line ends.** -/
theorem segments_marked {segment : Segment} (h : segment ∈ (build lines).segments) :
    BeginsLine lines segment.start ∧ EndsLine lines segment.stop := by
  have hmarked := state_marked lines
  rcases List.mem_append.1 ((build_perm lines).mem_iff.1 h) with hended | hunended
  · exact hmarked.segments segment hended
  · -- what is open below the last line was opened by some line, and ends where the last one ends
    unfold unended at hunended
    split at hunended
    · cases hunended
    · rename_i stop hlast
      obtain ⟨block, hblock, rfl⟩ := List.mem_map.1 hunended
      exact ⟨hmarked.stack block hblock, hmarked.lastEnd stop hlast⟩

theorem startOf_state (above : List FoldLine) (line : FoldLine) :
    (state above).startOf line =
      ⟨line.id, above.length, above.length + hiddenBehind above, line.offset, true⟩ := by
  simp only [FoldState.startOf, HiddenRows.logical, above_state, state_row, List.take_length]

end Layout

/-! ## Lines as folding sees them -/

theorem LineState.hiddenCount_of_collapsed (state : LineState) :
    (if state.isCollapsed then state.hiddenCount else 0) = state.hiddenCount := by
  split_ifs with hc
  · rfl
  · rw [isCollapsed, Option.not_isSome_iff_eq_none] at hc
    rw [hiddenCount, hc]
    rfl

theorem Row.length_hidden (r : Row) : r.hidden.length = r.state.hiddenCount := by
  unfold hidden LineState.hiddenCount
  cases r.state.snapshot with
  | none => rfl
  | some snapshot => exact snapshot.length_hiddenTexts

namespace Sheet

variable {s : Sheet} {kind : Nat}

/-- how many lines are hidden, at any depth, behind the first `row` rows -/
def hiddenAbove (s : Sheet) (row : Nat) : Nat := ((s.rows.take row).map fun r => r.hidden.length).sum

theorem map_behind_foldLinesFrom (h : s.WellFormed) (kind offset : Nat) {ids : List LineId}
    (hids : ∀ id ∈ ids, id ∈ s.document.order) :
    (s.foldLinesFrom kind offset ids).map FoldLine.behind = (ids.map s.row).map fun r => r.hidden.length := by
  induction ids generalizing offset with
  | nil => rfl
  | cons id ids ih =>
    rw [List.forall_mem_cons] at hids
    have hget := LineTable.get?_eq_some_entry s.table ((h.table id).2 hids.1)
    simp only [foldLinesFrom, List.map_cons, ih _ hids.2, hget, Option.getD_some]
    congr 1
    rw [Row.length_hidden]
    exact (s.table.entry id).hiddenCount_of_collapsed

theorem hiddenBehind_take (h : s.WellFormed) (kind row : Nat) :
    hiddenBehind ((s.foldLines kind).take row) = s.hiddenAbove row := by
  have hall : (s.foldLines kind).map FoldLine.behind = s.rows.map fun r => r.hidden.length :=
    map_behind_foldLinesFrom h kind 0 fun _ hid => hid
  rw [hiddenBehind, hiddenAbove, List.map_take, List.map_take, hall]

/-- a line among those that folding sees, among the ids: its offset adds up the lines above -/
theorem split_foldLinesFrom {offset : Nat} {ids : List LineId} {above below : List FoldLine} {line : FoldLine}
    (hl : s.foldLinesFrom kind offset ids = above ++ line :: below) :
    ∃ above' below', ids = above' ++ line.id :: below' ∧ above.length = above'.length ∧
      line.offset = offset + above'.foldr (fun id total => Text.width (s.document.textOf id) + 1 + total) 0 ∧
      line.length = Text.width (s.document.textOf line.id) := by
  induction above generalizing offset ids with
  | nil =>
    cases ids with
    | nil => cases hl
    | cons id ids =>
      obtain ⟨rfl, rfl⟩ := List.cons.inj hl
      exact ⟨[], ids, rfl, rfl, rfl, rfl⟩
  | cons first above ih =>
    cases ids with
    | nil => cases hl
    | cons id ids =>
      obtain ⟨-, hrest⟩ := List.cons.inj hl
      obtain ⟨above', below', rfl, hlen, hoffset, hlength⟩ := ih hrest
      refine ⟨id :: above', below', rfl, by simp [hlen], ?_, hlength⟩
      rw [hoffset, List.foldr_cons]
      omega

/-- **What folding sees of a line** is what the document says of it. -/
theorem split_foldLines (h : s.WellFormed) {above below : List FoldLine} {line : FoldLine}
    (hl : s.foldLines kind = above ++ line :: below) :
    s.document.row? line.id = some above.length ∧ s.document.position? line.id = some line.offset ∧
      s.document.width? line.id = some line.length ∧ hiddenBehind above = s.hiddenAbove above.length := by
  obtain ⟨above', below', ho, hlen, hoffset, hlength⟩ := split_foldLinesFrom hl
  have hid : line.id ∈ s.document.order := by rw [ho]; simp
  have hrow : s.document.row? line.id = some above.length := by
    rw [hlen]
    exact Document.row?_of_split h.document ho
  refine ⟨hrow, ?_, ?_, ?_⟩
  · rw [Document.position?, hrow, Option.map_some, ho, hlen, List.take_left, hoffset, Nat.zero_add]
  · rw [Document.width?, Document.text?_eq_some h.document hid, Option.map_some, hlength]
  · rw [← hiddenBehind_take h kind, hl, List.take_left]

end Sheet

/-! ## The document with nothing hidden -/

/-- the ids of a line and of those hidden behind it; these have none -/
def Row.ids (r : Row) : List (Option LineId) := some r.id :: r.hidden.map fun _ => none

/-- the ids of the lines that there are if nothing is hidden -/
def idsOfRows (rows : List Row) : List (Option LineId) := rows.flatMap Row.ids

@[simp] theorem idsOfRows_cons (r : Row) (rows : List Row) : idsOfRows (r :: rows) = r.ids ++ idsOfRows rows := by
  simp [idsOfRows]

@[simp] theorem idsOfRows_append (above below : List Row) :
    idsOfRows (above ++ below) = idsOfRows above ++ idsOfRows below := by
  simp [idsOfRows]

@[simp] theorem idsOfRows_dirtyFirst (rows : List Row) : idsOfRows (dirtyFirst rows) = idsOfRows rows := by
  cases rows with
  | nil => rfl
  | cons r rows => simp [dirtyFirst, Row.ids, Row.dirtied, Row.hidden]

theorem length_idsOfRows (rows : List Row) : (idsOfRows rows).length = (textsOfRows rows).length := by
  induction rows with
  | nil => rfl
  | cons r rows ih => simp [ih, Row.ids, Row.texts]

theorem length_idsOfRows_eq (rows : List Row) :
    (idsOfRows rows).length = rows.length + (rows.map fun r => r.hidden.length).sum := by
  induction rows with
  | nil => rfl
  | cons r rows ih =>
    simp only [idsOfRows_cons, List.length_append, ih, Row.ids, List.length_cons, List.length_map, List.map_cons,
      List.sum_cons]
    omega

/-- filling places that no line holds leaves every line at its place -/
theorem getElem?_filled {front gap filled back : List (Option LineId)} (hgap : ∀ x ∈ gap, x = none)
    (hlen : filled.length = gap.length) {i : Nat} {line : LineId}
    (h : (front ++ (gap ++ back))[i]? = some (some line)) : (front ++ (filled ++ back))[i]? = some (some line) := by
  rw [List.getElem?_append] at h ⊢
  split_ifs at h ⊢ with hfront
  · exact h
  · rw [List.getElem?_append] at h ⊢
    rw [hlen]
    split_ifs at h ⊢ with hin
    · cases hgap _ (List.mem_of_getElem? h)
    · exact h

/-- **Bringing lines back leaves every line at its place.** -/
theorem Effect.place_kept {g : Grammar} {ignores : IgnoreRule} {m : Move} {rows rows' : List Row}
    (he : Effect g ignores m rows rows') (hp : ∀ r ∈ rows, r.Proper) (hm : m.isOpening = true) {i : Nat} {line : LineId}
    (h : (idsOfRows rows)[i]? = some (some line)) : (idsOfRows rows')[i]? = some (some line) := by
  cases he with
  | quiet | unknown => exact h
  | expandFlat above r below deep hs =>
    rw [idsOfRows_append, idsOfRows_cons] at h ⊢
    exact h
  | expand above r below deep snapshot ids hs hl =>
    have hr : r.Proper := hp r (by simp)
    set restored := Row.restored ids (Snapshot.restoredAll deep snapshot.children)
    have hlen : (idsOfRows restored).length = (r.hidden.map fun _ => (none : Option LineId)).length := by
      rw [length_idsOfRows, hr.texts_restored hs hl, List.length_map]
    have hgap : ∀ x ∈ r.hidden.map fun _ => (none : Option LineId), x = none := by simp
    have hrows : idsOfRows (above ++ r :: below) =
        (idsOfRows above ++ [some r.id]) ++ ((r.hidden.map fun _ => none) ++ idsOfRows below) := by
      simp [Row.ids]
    have hrows' : idsOfRows (above ++ r.opened :: (restored ++ dirtyFirst below)) =
        (idsOfRows above ++ [some r.id]) ++ (idsOfRows restored ++ idsOfRows below) := by
      simp [Row.ids, Row.opened, Row.hidden]
    rw [hrows] at h
    rw [hrows']
    exact getElem?_filled hgap hlen h
  | _ => cases hm

namespace Session

variable {s t : Session}

theorem Leads.place_kept (hl : Leads (·.isOpening) s t) (h : s.WellFormed) (hp : s.Proper) {i : Nat} {line : LineId}
    (hi : (idsOfRows s.rows)[i]? = some (some line)) : (idsOfRows t.rows)[i]? = some (some line) := by
  induction hl with
  | refl => exact hi
  | @tail t m hl hm ha ih =>
    exact (act_effect (hl.wellFormed h).sheet m ha).1.place_kept (hl.proper h hp) hm ih

theorem idsOfRows_of_flat (hflat : ∀ r ∈ s.rows, r.state.snapshot = none) :
    idsOfRows s.rows = s.document.order.map some := by
  have hone : ∀ r ∈ s.rows, r.ids = [some r.id] := by
    intro r hr
    simp [Row.ids, Row.hidden, hflat r hr]
  calc idsOfRows s.rows
      _ = s.rows.flatMap fun r => [some r.id] := List.flatMap_congr hone
      _ = (s.rows.map (·.id)).map some := by rw [← List.map_eq_flatMap, List.map_map]; rfl
      _ = s.document.order.map some := by rw [Sheet.map_id_rows]

/-- **The row of a line once all lines are expanded** is its row and what is hidden behind the rows above it. -/
theorem row?_expandAll (h : s.WellFormed) (hp : s.Proper) {line : LineId} {row : Nat}
    (hr : s.document.lineAt? row = some line) :
    s.expandAll.2.document.row? line = some (row + s.hiddenAbove row) := by
  obtain ⟨hlt, hget⟩ := List.getElem?_eq_some_iff.1 hr
  have hsplit : s.document.order = s.document.order.take row ++ line :: s.document.order.drop (row + 1) := by
    rw [← hget]
    simp
  have hrows := Sheet.rows_of_split hsplit
  have hlen : (idsOfRows ((s.document.order.take row).map s.row)).length = row + s.hiddenAbove row := by
    have htake : (s.document.order.take row).map s.row = s.rows.take row := List.map_take
    rw [htake, length_idsOfRows_eq, List.length_take, Sheet.hiddenAbove, Sheet.rows, List.length_map,
      Nat.min_eq_left hlt.le]
  -- among all lines the line comes after the rows above and what they hide, and expanding does not move it
  have hplace : (idsOfRows s.rows)[row + s.hiddenAbove row]? = some (some line) := by
    rw [hrows, idsOfRows_append, ← hlen, List.getElem?_append_right (Nat.le_refl _), Nat.sub_self]
    rfl
  have hleads := expandAll_leads s
  have hplace' := hleads.place_kept h hp hplace
  rw [idsOfRows_of_flat (expandAll_flat h hp), List.getElem?_map] at hplace'
  obtain ⟨other, hother, hsome⟩ := Option.map_eq_some_iff.1 hplace'
  cases hsome
  exact Document.row?_of_getElem? (hleads.wellFormed h).sheet.document hother

/-- what a marker says of its line is so: its row, and its row once all lines are expanded, which is what is hidden behind
the rows above it more -/
structure Placed (s : Session) (m : Marker) : Prop where
  row : s.document.row? m.line = some m.row
  logical : s.expandAll.2.document.row? m.line = some m.logical
  counted : m.logical = m.row + s.hiddenAbove m.row

/-- both ends of a segment are placed, and its offsets are where its first line begins and where its last one ends -/
structure Locates (s : Session) (segment : Segment) : Prop where
  start : s.Placed segment.start
  stop : s.Placed segment.stop
  begins : s.document.position? segment.start.line = some segment.start.offset
  ends : ∃ position width, s.document.position? segment.stop.line = some position ∧
    s.document.width? segment.stop.line = some width ∧ segment.stop.offset = position + width

theorem startOf_placed (h : s.WellFormed) (hp : s.Proper) {kind : Nat} {above below : List FoldLine} {line : FoldLine}
    (hl : s.foldLines kind = above ++ line :: below) : s.Placed ((Layout.state above).startOf line) := by
  obtain ⟨hrow, -, -, hhidden⟩ := Sheet.split_foldLines h.sheet hl
  have hline : s.document.lineAt? above.length = some line.id := Document.getElem?_of_row? h.sheet.document hrow
  rw [Layout.startOf_state, hhidden]
  exact ⟨hrow, row?_expandAll h hp hline, rfl⟩

theorem build_locates (h : s.WellFormed) (hp : s.Proper) {kind : Nat} {segment : Segment}
    (hs : segment ∈ (Layout.build (s.foldLines kind)).segments) : s.Locates segment := by
  obtain ⟨⟨above, line, below, hl, hstart⟩, ⟨above', line', below', hl', hstop⟩⟩ := Layout.segments_marked hs
  obtain ⟨-, hposition, -, -⟩ := Sheet.split_foldLines h.sheet hl
  obtain ⟨-, hposition', hwidth, -⟩ := Sheet.split_foldLines h.sheet hl'
  have hplaced := startOf_placed h hp hl'
  refine ⟨?_, ?_, ?_, ?_⟩
  · rw [hstart]
    exact startOf_placed h hp hl
  · rw [hstop]
    exact ⟨hplaced.row, hplaced.logical, hplaced.counted⟩
  · rw [hstart]
    exact hposition
  · rw [hstop]
    exact ⟨line'.offset, line'.length, hposition', hwidth, rfl⟩

end Session

end Linewise
