/-
A sheet as a list of rows.

A row is a line of the document with its text and its state. Look-ups by id, noted rows and the table of states are
gone in this view: an operation on a sheet is an edit of a list, at one place of it. `Sheet.WellFormed` says that the view
is faithful: the document is well formed, and the table knows its lines and no others.
-/
import Linewise.Proofs.Document.Edits
import Linewise.Session.Highlight
import Linewise.Sheet.Collapse

namespace Linewise

/-! ## The table of line states -/

namespace LineTable

theorem entry_insert (t : LineTable) (id x : LineId) (state : LineState) :
    (t.insert id state).entry x = if x = id then state else t.entry x := by
  simp only [entry, get?_insert]
  split_ifs <;> rfl

theorem contains_insert (t : LineTable) (id x : LineId) (state : LineState) :
    (t.insert id state).contains x = true ↔ x = id ∨ t.contains x = true := by
  simp only [contains, get?_insert]
  split_ifs with hx <;> simp [hx]

theorem entry_erase (t : LineTable) {id x : LineId} (hx : x ≠ id) : (t.erase id).entry x = t.entry x := by
  simp [entry, get?_erase, hx]

theorem contains_erase (t : LineTable) (id x : LineId) :
    (t.erase id).contains x = true ↔ x ≠ id ∧ t.contains x = true := by
  simp only [contains, get?_erase]
  split_ifs with hx <;> simp [hx]

theorem entry_markDirty? (t : LineTable) (line : Option LineId) (x : LineId) :
    (t.markDirty? line).entry x = if line = some x then { t.entry x with dirty := true } else t.entry x := by
  cases line with
  | none => simp [markDirty?]
  | some id =>
    simp only [markDirty?, markDirty, entry_insert, Option.some.injEq]
    by_cases hx : x = id
    · subst hx; simp
    · rw [if_neg hx, if_neg (Ne.symm hx)]

theorem contains_markDirty? (t : LineTable) (line : Option LineId) (x : LineId) :
    (t.markDirty? line).contains x = true ↔ line = some x ∨ t.contains x = true := by
  cases line with
  | none => simp [markDirty?]
  | some id =>
    simp only [markDirty?, markDirty, contains_insert, Option.some.injEq]
    rw [eq_comm]

theorem get?_eq_some_entry (t : LineTable) {id : LineId} (h : t.contains id = true) :
    t.get? id = some (t.entry id) := by
  obtain ⟨state, hs⟩ := Option.isSome_iff_exists.1 h
  simp [entry, hs]

theorem isDirty_eq (t : LineTable) (id : LineId) : t.isDirty id = (t.entry id).dirty := by
  simp only [isDirty, entry]
  cases t.get? id <;> rfl

theorem isCollapsed_eq (t : LineTable) (id : LineId) : t.isCollapsed id = (t.entry id).isCollapsed := by
  simp only [isCollapsed, entry]
  cases t.get? id <;> rfl

theorem entry_insertAll_of_not_mem (t : LineTable) (states : List (LineId × LineState)) {x : LineId}
    (hx : x ∉ states.map (·.1)) : (t.insertAll states).entry x = t.entry x := by
  induction states generalizing t with
  | nil => rfl
  | cons entry states ih =>
    simp only [List.map_cons, List.mem_cons, not_or] at hx
    have hi := ih (t.insert entry.1 entry.2) hx.2
    rw [entry_insert, if_neg hx.1] at hi
    exact hi

theorem map_entry_insertAll (t : LineTable) (ids : List LineId) (states : List LineState) (hn : ids.Nodup)
    (hl : ids.length = states.length) : ids.map (t.insertAll (ids.zip states)).entry = states := by
  induction ids generalizing t states with
  | nil => exact (List.length_eq_zero_iff.1 hl.symm).symm
  | cons id ids ih =>
    cases states with
    | nil => simp at hl
    | cons state states =>
      obtain ⟨hid, hn⟩ := List.nodup_cons.1 hn
      have hout : id ∉ (ids.zip states).map (·.1) := fun hm => hid (by
        obtain ⟨entry, hentry, rfl⟩ := List.mem_map.1 hm
        exact (List.of_mem_zip hentry).1)
      have hhead := entry_insertAll_of_not_mem (t.insert id state) (ids.zip states) hout
      rw [entry_insert, if_pos rfl] at hhead
      have htail := ih (t.insert id state) states hn (by simpa using hl)
      simp only [List.zip_cons_cons, List.map_cons, List.cons.injEq]
      exact ⟨hhead, htail⟩

theorem contains_insertAll (t : LineTable) (states : List (LineId × LineState)) (x : LineId) :
    (t.insertAll states).contains x = true ↔ x ∈ states.map (·.1) ∨ t.contains x = true := by
  induction states generalizing t with
  | nil => simp [insertAll]
  | cons entry states ih =>
    have hi := ih (t.insert entry.1 entry.2)
    rw [contains_insert] at hi
    simp only [List.map_cons, List.mem_cons]
    rw [show t.insertAll (entry :: states) = (t.insert entry.1 entry.2).insertAll states from rfl, hi]
    tauto

theorem entry_foldl_erase (t : LineTable) (ids : List LineId) {x : LineId} (hx : x ∉ ids) :
    (ids.foldl (fun t id => t.erase id) t).entry x = t.entry x := by
  induction ids generalizing t with
  | nil => rfl
  | cons id ids ih =>
    simp only [List.mem_cons, not_or] at hx
    rw [List.foldl_cons, ih _ hx.2, entry_erase t hx.1]

theorem contains_foldl_erase (t : LineTable) (ids : List LineId) (x : LineId) :
    (ids.foldl (fun t id => t.erase id) t).contains x = true ↔ x ∉ ids ∧ t.contains x = true := by
  induction ids generalizing t with
  | nil => simp
  | cons id ids ih =>
    rw [List.foldl_cons, ih, contains_erase]
    simp only [List.mem_cons, not_or]
    tauto

end LineTable

/-! ## Rows -/

/-- a line of the document, with its text and its state -/
structure Row where
  id : LineId
  text : Text
  state : LineState

namespace Row

/-- the texts hidden behind the line -/
def hidden (r : Row) : List Text := (r.state.snapshot.map (·.hiddenTexts)).getD []

/-- the line with all it hides -/
def texts (r : Row) : List Text := r.text :: r.hidden

/-- the line, to be analysed again -/
def dirtied (r : Row) : Row := { r with state := { r.state with dirty := true } }

/-- the line with another text -/
def rewritten (r : Row) (text : Text) : Row := { r with text, state := { r.state with dirty := true } }

/-- a line that was never analysed -/
def new (id : LineId) (text : Text) : Row := ⟨id, text, .fresh⟩

/-- the line once it is analysed, given the range open when it begins -/
def analyzed (g : Grammar) (ignores : IgnoreRule) (incoming : RuleId) (r : Row) : Row :=
  let regions := g.analyze r.text incoming
  { r with
    state :=
      { regions
        tallies := .ofLine g.delimiters r.text regions.isCommented
        ignored := ignores r.text regions
        dirty := false
        snapshot := r.state.snapshot.map fun snapshot => snapshot.carry g regions.outgoing } }

/-- the line as it is kept once it is hidden -/
def kept (r : Row) : Snapshot := r.state.toSnapshot r.text

/-- the line once it hides nothing any more -/
def opened (r : Row) : Row := { r with state := { r.state with dirty := true, snapshot := none } }

/-- the rows of lines that come back -/
def restored (ids : List LineId) (lines : List (Text × Option Snapshot)) : List Row :=
  List.zipWith (fun id line => ⟨id, line.1, { LineState.fresh with snapshot := line.2 }⟩) ids lines

end Row

/-- the line once a range is handed to it: it is analysed again if it received another one before -/
def Row.handed (range : RuleId) (r : Row) : Row := if r.state.incoming = range then r else r.dirtied

/-- have the first of the rows analysed again -/
def dirtyFirst (rows : List Row) : List Row := rows.modifyHead Row.dirtied

/-- hand a range to the first of the rows -/
def handTo (range : RuleId) (rows : List Row) : List Row := rows.modifyHead (Row.handed range)

/-- the range handed on by the last of the rows -/
def rangeAfter (rows : List Row) : RuleId := (rows.getLast?.map (·.state.outgoing)).getD .none

/-- the line once the given rows are hidden behind it -/
def Row.covering (r : Row) (rows : List Row) : Row :=
  let snapshot := Snapshot.extend r.state.snapshot r.text (rows.map Row.kept) ⟨r.state.regions.outgoing, rangeAfter rows⟩
  { r with state := { r.state with dirty := true, snapshot := some snapshot } }

namespace Sheet

/-- the row of a line -/
def row (s : Sheet) (id : LineId) : Row := ⟨id, s.document.textOf id, s.table.entry id⟩

/-- the rows of the document in order -/
def rows (s : Sheet) : List Row := s.document.order.map s.row

/-- the document is well formed, and its lines and no others have a state -/
structure WellFormed (s : Sheet) : Prop where
  document : s.document.WellFormed
  table : ∀ id, s.table.contains id = true ↔ id ∈ s.document.order

theorem map_id_rows (s : Sheet) : s.rows.map (·.id) = s.document.order := by
  simp [rows, Function.comp_def, row]

theorem rows_of_split {s : Sheet} {above below : List LineId} {id : LineId}
    (ho : s.document.order = above ++ id :: below) :
    s.rows = above.map s.row ++ s.row id :: below.map s.row := by
  simp [rows, ho]

theorem row_id {s : Sheet} {r : Row} (hr : r ∈ s.rows) : s.row r.id = r := by
  obtain ⟨id, _, rfl⟩ := List.mem_map.1 hr
  rfl

theorem map_row_id {s : Sheet} {rows : List Row} (hr : ∀ r ∈ rows, r ∈ s.rows) :
    (rows.map (·.id)).map s.row = rows := by
  rw [List.map_map]
  exact (List.map_congr_left fun r h => row_id (hr r h)).trans (List.map_id rows)

theorem row_congr {s t : Sheet} {id : LineId} (ht : t.document.textOf id = s.document.textOf id)
    (he : t.table.entry id = s.table.entry id) : t.row id = s.row id := by
  simp only [row, ht, he]

/-- rows of which an operation touches the first only -/
theorem map_row_modifyHead {s t : Sheet} {f : Row → Row} {ids : List LineId} (hn : ids.Nodup)
    (hf : ∀ id, ids.head? = some id → t.row id = f (s.row id))
    (hr : ∀ id ∈ ids, ids.head? ≠ some id → t.row id = s.row id) : ids.map t.row = (ids.map s.row).modifyHead f := by
  cases ids with
  | nil => rfl
  | cons first ids =>
    simp only [List.map_cons, List.modifyHead_cons, List.cons.injEq]
    refine ⟨hf first rfl, List.map_congr_left fun id hid => hr id (List.mem_cons_of_mem _ hid) ?_⟩
    have hne : first ≠ id := fun he => (List.nodup_cons.1 hn).1 (he ▸ hid)
    simpa using hne

/-- the table of a sheet once the first of some lines is to be analysed again -/
theorem map_row_markDirty? {s : Sheet} {d : Document} {table : LineTable} {ids : List LineId} (hn : ids.Nodup)
    (ht : ∀ id ∈ ids, d.textOf id = s.document.textOf id) (he : ∀ id ∈ ids, table.entry id = s.table.entry id) :
    ids.map (row ⟨d, table.markDirty? ids.head?⟩) = dirtyFirst (ids.map s.row) := by
  refine map_row_modifyHead hn ?_ fun id hid hne => row_congr (ht id hid) ?_
  · intro id hid
    have hm := List.mem_of_mem_head? hid
    simp only [row, Row.dirtied, LineTable.entry_markDirty?, if_pos hid, ht id hm, he id hm]
  · simp only [LineTable.entry_markDirty?, if_neg hne, he id hid]

/-- the other lines do not notice -/
theorem row_markDirty?_of_ne {s : Sheet} {d : Document} {table : LineTable} {line : Option LineId} {id : LineId}
    (hne : line ≠ some id) (ht : d.textOf id = s.document.textOf id) (he : table.entry id = s.table.entry id) :
    row ⟨d, table.markDirty? line⟩ id = s.row id :=
  row_congr ht (by simp only [LineTable.entry_markDirty?, if_neg hne, he])

/-- the rows of a sheet of which one line was touched -/
theorem rows_of_touched {s t : Sheet} (h : s.document.WellFormed) {above below : List LineId} {id : LineId}
    (ho : s.document.order = above ++ id :: below) (hto : t.document.order = s.document.order)
    (hrest : ∀ x, x ≠ id → t.row x = s.row x) : t.rows = above.map s.row ++ t.row id :: below.map s.row := by
  rw [rows, hto, ho, List.map_append, List.map_cons]
  congr 1
  · refine List.map_congr_left fun x hx => hrest x ?_
    rintro rfl
    exact Document.not_mem_above h ho hx
  congr 1
  refine List.map_congr_left fun x hx => hrest x ?_
  rintro rfl
  exact Document.not_mem_below h ho hx

/-- the rows of a sheet with other lines in one place; the line below them is to be analysed again -/
theorem rows_spliced {s : Sheet} {e : Document} {table : LineTable} {above lines below : List LineId}
    (he : e.WellFormed) (ho : e.order = above ++ lines ++ below)
    (ht : ∀ x ∈ above ++ below, e.textOf x = s.document.textOf x)
    (hs : ∀ x ∈ above ++ below, table.entry x = s.table.entry x) :
    rows ⟨e, table.markDirty? below.head?⟩ =
      above.map s.row ++ lines.map (row ⟨e, table⟩) ++ dirtyFirst (below.map s.row) := by
  have hnodup := he.nodup
  rw [ho, List.nodup_append] at hnodup
  have hhead : ∀ x ∈ above ++ lines, below.head? ≠ some x := fun x hx hb =>
    hnodup.2.2 x hx x (List.mem_of_mem_head? hb) rfl
  rw [rows, ho, List.map_append, List.map_append]
  congr 1
  · congr 1
    · apply List.map_congr_left
      intro x hx
      exact row_markDirty?_of_ne (hhead x (List.mem_append_left _ hx)) (ht x (List.mem_append_left _ hx))
        (hs x (List.mem_append_left _ hx))
    · apply List.map_congr_left
      intro x hx
      exact row_markDirty?_of_ne (s := ⟨e, table⟩) (hhead x (List.mem_append_right _ hx)) rfl rfl
  · exact map_row_markDirty? hnodup.2.1 (fun x hx => ht x (List.mem_append_right _ hx))
      fun x hx => hs x (List.mem_append_right _ hx)

/-- such a sheet is well formed if its table knows the lines -/
theorem wellFormed_spliced {e : Document} {table : LineTable} {above lines below : List LineId} (he : e.WellFormed)
    (ho : e.order = above ++ lines ++ below) (ht : ∀ x, table.contains x = true ↔ x ∈ above ++ lines ++ below) :
    WellFormed ⟨e, table.markDirty? below.head?⟩ := by
  refine ⟨he, ?_⟩
  intro x
  rw [LineTable.contains_markDirty?, ht, ho]
  refine ⟨?_, Or.inr⟩
  intro hx
  rcases hx with hx | hx
  · exact List.mem_append_right _ (List.mem_of_mem_head? hx)
  · exact hx

end Sheet

end Linewise
